import Yang.Text.Digit

/-!
# Punycode

A label of a domain that holds characters outside ASCII is transmitted as its ASCII
characters, a dash, and digits in base thirty-six. The digits form numbers of varying
length, each of which says how far the insertion of the next character moves on; the
thresholds that end a number adapt to the numbers before it. Positions and weights are
numbers of thirty-two bits. Only decoding is needed here, since a host is judged and not
stored.
-/

namespace Yang.Uri.Punycode

/-- The value of a digit, letters first. -/
def digit? (c : Char) : Option Nat :=
  if 'a' ≤ c ∧ c ≤ 'z' then some (c.toNat - 97)
  else if c.isDigit then some (c.toNat - 22)
  else none

/-- The digit at position `k` ends its number if it is below this threshold. -/
def threshold (k bias : Nat) : Nat :=
  if k ≤ bias then 1 else min 26 (k - bias)

/-- Shrink a distance until it is small, counting the positions that are passed. -/
def shrink (distance k : Nat) : Nat × Nat :=
  if 455 < distance then shrink (distance / 35) (k + 36) else (distance, k)
termination_by distance
decreasing_by exact Nat.div_lt_self (by omega) (by omega)

/-- The bias after a distance, when `count` characters are known. -/
def adapt (distance count : Nat) (first : Bool) : Nat :=
  let start := if first then distance / 700 else distance / 2
  let (rest, k) := shrink (start + start / count) 0
  k + 36 * rest / (rest + 38)

/-- Read one number onto a sum: the new sum and the digits that are left. -/
def number? (bias k weight sum : Nat) : List Char → Option (Nat × List Char)
  | [] => none
  | c :: cs =>
    match digit? c with
    | none => none
    | some d =>
      let next := sum + d * weight
      let heavier := weight * (36 - threshold k bias)
      if twoTo 32 ≤ next then none
      else if d < threshold k bias then some (next, cs)
      else if twoTo 32 ≤ heavier then none
      else number? bias (k + 36) heavier next cs

/-- Insert the characters that the digits describe; `fuel` bounds their number. -/
def insertions? : Nat → List Char → Nat → Nat → Nat → List Char → Option (List Char)
  | 0, _, _, _, _, _ => none
  | _ + 1, known, _, _, _, [] => some known
  | fuel + 1, known, code, index, bias, cs =>
    match number? bias 36 1 index cs with
    | none => none
    | some (position, rest) =>
      let count := known.length + 1
      let code := code + position / count
      if code.isValidChar then
        insertions? fuel (known.insertIdx (position % count) (Char.ofNat code)) code
          (position % count + 1) (adapt (position - index) count (index == 0)) rest
      else none

/-- The characters of a label after its mark. The last dash ends the ASCII part,
unless nothing stands before it. -/
def decode? (cs : List Char) : Option (List Char) :=
  let digits := (cs.reverse.takeWhile (· != '-')).reverse
  let basic := (cs.take (cs.length - digits.length)).dropLast
  if basic.isEmpty then insertions? (cs.length + 1) [] 128 0 72 cs
  else insertions? (cs.length + 1) basic 128 0 72 digits

end Yang.Uri.Punycode
