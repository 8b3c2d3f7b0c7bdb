import Yang.Text.Digit

/-!
# Calendar dates

Dates of the Gregorian calendar, extended backwards to the year zero, with years of
at most four digits. The text of a date pads year, month and day with zeros, so the
order of dates is the order of their texts.
-/

namespace Yang

/-- A year, a month and a day, not necessarily of the calendar. -/
structure Date where
  year : Nat
  month : Nat
  day : Nat
deriving DecidableEq, Repr

namespace Date

/-- Every fourth year is a leap year, of the centuries only every fourth. -/
def isLeap (year : Nat) : Bool :=
  year % 4 == 0 && (year % 100 != 0 || year % 400 == 0)

/-- The number of days of a month; none outside the twelve months. -/
def daysIn (year month : Nat) : Nat :=
  match month with
  | 1 | 3 | 5 | 7 | 8 | 10 | 12 => 31
  | 4 | 6 | 9 | 11 => 30
  | 2 => if isLeap year then 29 else 28
  | _ => 0

/-- The date is in the calendar, in a year of four digits. The month needs no
bounds of its own: outside the twelve months no day exists. -/
def Exists (d : Date) : Prop :=
  d.year < 10000 ∧ 1 ≤ d.day ∧ d.day ≤ daysIn d.year d.month

instance (d : Date) : Decidable d.Exists :=
  inferInstanceAs (Decidable (_ ∧ _ ∧ _))

/-- The last `width` decimal digits of a number, with leading zeros. -/
def padded : Nat → Nat → List Char
  | 0, _ => []
  | width + 1, n => padded width (n / 10) ++ [Nat.digitChar (n % 10)]

/-- The characters of a date: year, month and day between dashes. -/
def chars (d : Date) : List Char :=
  padded 4 d.year ++ '-' :: padded 2 d.month ++ '-' :: padded 2 d.day

def text (d : Date) : String := String.ofList d.chars

/-- The date whose year, month and day are written by these digits. -/
def ofDigits? (year month day : List Char) : Option Date := do
  let d : Date := ⟨← Text.number? 10 year, ← Text.number? 10 month, ← Text.number? 10 day⟩
  if d.Exists then some d else none

theorem padded_length (width n : Nat) : (padded width n).length = width := by
  induction width generalizing n with
  | zero => rfl
  | succ width ih => simp [padded, ih]

theorem month_of_daysIn {year month : Nat} (h : 1 ≤ daysIn year month) :
    1 ≤ month ∧ month ≤ 12 := by
  unfold daysIn at h
  split at h <;> omega

end Date

end Yang
