import Yang.Binary64

/-!
# The fewest decimal digits of a magnitude

A decimal number denotes a magnitude if it lies among the fractions that round to it:
from the middle below to the middle above, the two ends included when the mantissa is
even. On the grid of the decimal numbers with one digit, then two, and so on, only the
two neighbours of the magnitude have to be tried, because a grid that meets the
interval meets it in one of them. The first grid with a hit decides the number of
digits. Of two hits the nearer is taken, and in the middle the even one.
-/

namespace Yang.Binary64

/-- The decimal number `digits * 10 ^ exponent`. -/
structure Decimal where
  digits : Nat
  exponent : Int
deriving DecidableEq, Repr

/-- Compare `a * 10 ^ i` with `b * 2 ^ j`, without a division. -/
def compareScaled (a : Nat) (i : Int) (b : Nat) (j : Int) : Ordering :=
  compare (a * tenTo i.toNat * twoTo (-j).toNat) (b * twoTo j.toNat * tenTo (-i).toNat)

/-- The magnitude below is only half as far away as the one above. -/
def narrowBelow (x : Binary64) : Bool :=
  x.mantissa == twoTo 52 && x.exponent != leastExponent

/-- The decimal number rounds to the magnitude. The ends of the interval are
counted in quarters of the unit, and belong to it only when the mantissa is
even, since a number in the middle rounds to the even one. -/
def denotedBy (x : Binary64) (d : Decimal) : Bool :=
  let low := if x.narrowBelow then 4 * x.mantissa - 1 else 4 * x.mantissa - 2
  let high := 4 * x.mantissa + 2
  let ends := x.mantissa % 2 == 0
  let below := compareScaled d.digits d.exponent low (x.exponent - 2)
  let above := compareScaled d.digits d.exponent high (x.exponent - 2)
  (below == .gt || (ends && below == .eq)) && (above == .lt || (ends && above == .eq))

def digitCount (n : Nat) : Nat :=
  if n = 0 then 0 else (Nat.toDigits 10 n).length

/-- The least exponent of a power of ten above the magnitude. -/
def decimalScale (x : Binary64) : Int :=
  let (num, den) := x.fraction
  if den ≤ num then digitCount (num / den) else 1 - (digitCount ((den - 1) / num) : Int)

/-- The neighbour of the magnitude on the grid of `count` digits that denotes
it. -/
def onGrid? (x : Binary64) (count : Nat) : Option Decimal :=
  let grid := x.decimalScale - count
  let (num, den) := x.fraction
  let n := num * tenTo (-grid).toNat
  let d := den * tenTo grid.toNat
  let low : Decimal := ⟨n / d, grid⟩
  let high : Decimal := ⟨n / d + 1, grid⟩
  match x.denotedBy low, x.denotedBy high with
  | false, false => none
  | true, false => some low
  | false, true => some high
  | true, true =>
    match compare (2 * (n % d)) d with
    | .lt => some low
    | .gt => some high
    | .eq => some (if n / d % 2 = 0 then low else high)

/-- Move trailing zeros of the digits into the exponent; `fuel` bounds their
number. -/
def Decimal.strip : Nat → Decimal → Decimal
  | 0, d => d
  | fuel + 1, d =>
    if d.digits ≠ 0 ∧ d.digits % 10 = 0 then strip fuel ⟨d.digits / 10, d.exponent + 1⟩ else d

/-- The decimal number with the fewest digits that denotes the magnitude.
Seventeen digits always suffice; past them the exact value would stand. -/
def shortest (x : Binary64) : Decimal :=
  match (List.range 17).findSome? (fun n => x.onGrid? (n + 1)) with
  | some d => d.strip 18
  | none => ⟨x.fraction.1 * Nat.pow 5 (-x.exponent).toNat, min x.exponent 0⟩

end Yang.Binary64
