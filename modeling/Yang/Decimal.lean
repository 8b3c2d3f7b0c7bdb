import Yang.Text.Digit

/-!
# Decimal numbers

A decimal number is a whole number of units `10 ^ -scale`. Two of them can denote the
same number at different scales; comparison is by the number denoted and is exact,
while the text keeps the scale.
-/

namespace Yang

/-- The number `mantissa * 10 ^ -scale`. One number has several forms, of which
the least in scale is `normal`; the form is kept because the text of a number
shows its scale. -/
structure Decimal where
  mantissa : Int
  scale : Nat
deriving DecidableEq, Repr

namespace Decimal

def ofInt (n : Int) : Decimal := ⟨n, 0⟩

/-- Compare the numbers denoted, at a common scale. -/
def compare (a b : Decimal) : Ordering :=
  Ord.compare (a.mantissa * tenTo b.scale) (b.mantissa * tenTo a.scale)

def same (a b : Decimal) : Bool :=
  a.mantissa * tenTo b.scale == b.mantissa * tenTo a.scale

/-- The least scale at which `m * 10 ^ -scale` can be written. -/
def normalAt (m : Int) : Nat → Decimal
  | 0 => ⟨m, 0⟩
  | scale + 1 => if m % 10 = 0 then normalAt (m / 10) scale else ⟨m, scale + 1⟩

/-- The same number at its least scale. -/
def normal (d : Decimal) : Decimal := normalAt d.mantissa d.scale

/-- At least `width` decimal digits of a number. -/
def digits (width n : Nat) : List Char :=
  let ds := Nat.toDigits 10 n
  List.replicate (width - ds.length) '0' ++ ds

/-- The text of a decimal number: as many digits after the point as its scale
says. -/
def text (d : Decimal) : String :=
  let ds := digits (d.scale + 1) d.mantissa.natAbs
  let whole := ds.take (ds.length - d.scale)
  let fraction := ds.drop (ds.length - d.scale)
  String.ofList
    ((if d.mantissa < 0 then ['-'] else []) ++ whole ++
      (if d.scale = 0 then [] else '.' :: fraction))

end Decimal

end Yang
