import Yang.Text.Blank
import Yang.Text.Cut
import Yang.Text.Digit

/-!
# Sets of code points

Properties of characters are sets of code points, and most of them are long runs. A set
is kept as closed ranges. The tables of this library are written as texts: a range is
its first and its last code point in base sixteen with a dash between them, or one code
point that stands for itself, and blanks separate the ranges.
-/

namespace Yang.Text

/-- A set of code points, as closed ranges. -/
structure CodeSet where
  ranges : List (Nat × Nat)
deriving Repr

namespace CodeSet

def contains (set : CodeSet) (n : Nat) : Bool :=
  set.ranges.any fun range => range.1 ≤ n && n ≤ range.2

def holds (set : CodeSet) (c : Char) : Bool := set.contains c.toNat

def range? (word : String) : Option (Nat × Nat) :=
  match cutText? "-" word with
  | none => (number? 16 word.toList).map fun n => (n, n)
  | some (first, last) =>
    match number? 16 first.toList, number? 16 last.toList with
    | some a, some b => some (a, b)
    | _, _ => none

/-- The set that a text writes: hexadecimal code points and ranges of them, with
blanks between. -/
def ofText (text : String) : CodeSet := ⟨(words text).filterMap range?⟩

end CodeSet

end Yang.Text
