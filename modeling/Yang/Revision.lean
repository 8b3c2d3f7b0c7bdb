import Yang.Calendar
import Yang.Error

/-!
# Revisions

A revision is the date of a version of a module. It is written as a date or, in the
segment of a path, compactly as `rev` and the digits of the date, where the year begins
with one or two. Its canonical form is the text of the date, so the order of canonical
revisions is the order of their dates; a missing revision is before every date.
-/

namespace Yang.Revision

def dateOfChars? : List Char → Option Date
  | [y1, y2, y3, y4, '-', m1, m2, '-', d1, d2] => Date.ofDigits? [y1, y2, y3, y4] [m1, m2] [d1, d2]
  | ['r', 'e', 'v', y1, y2, y3, y4, m1, m2, d1, d2] =>
    if y1 = '1' ∨ y1 = '2' then Date.ofDigits? [y1, y2, y3, y4] [m1, m2] [d1, d2] else none
  | _ => none

def date? (s : String) : Option Date := dateOfChars? s.toList

/-- The canonical form of a revision. None is given for a text that names no
date of the calendar. -/
def parse? (s : String) : Option String := (date? s).map Date.text

def isRevision (s : String) : Bool := (parse? s).isSome

def validate (s : String) : Except Error String :=
  match parse? s with
  | some text => .ok text
  | none => .error (.schema (.badRevision s))

/-- The order of revisions; a missing one comes first. -/
def le : Option String → Option String → Bool
  | none, _ => true
  | some _, none => false
  | some a, some b => decide (a ≤ b)

def newer (a b : Option String) : Bool := !le a b

/-- The newest of several things with a revision; of equally new ones the last.
A thing without revision is older than all that have one. -/
def newest? {α : Type} (revision : α → Option String) : List α → Option α :=
  List.foldl
    (fun best a =>
      match best with
      | none => some a
      | some b => if le (revision b) (revision a) then some a else some b)
    none

theorem le_refl (a : Option String) : le a a = true := by
  cases a <;> simp [le]

theorem le_total (a b : Option String) : le a b = true ∨ le b a = true := by
  cases a with
  | none => simp [le]
  | some a =>
    cases b with
    | none => simp [le]
    | some b => simpa [le] using String.le_total a b

end Yang.Revision
