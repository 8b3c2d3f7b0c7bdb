import Yang.Text.Digit

/-!
# Finite binary floating-point magnitudes

A magnitude is a whole number of units `2 ^ exponent`, with at most fifty-three bits
in the number and the exponent bounded on both sides. Arithmetic is exact on
fractions of natural numbers and then rounded once, to the nearest magnitude and, in
the middle between two, to the even one. No machine arithmetic is involved, so every
result can be computed inside a proof.
-/

namespace Yang

/-- The magnitude `mantissa * 2 ^ exponent`. The sign of a number stands beside
its magnitude and takes no part in the rounding. -/
structure Binary64 where
  mantissa : Nat
  exponent : Int
deriving DecidableEq, Repr

namespace Binary64

def leastExponent : Int := -1074

def greatestExponent : Int := 971

def zero : Binary64 := ⟨0, leastExponent⟩

/-- The fraction `num / (den * 2 ^ e)`, without a power of two below the line
when `e` is negative. -/
def scaled (num den : Nat) (e : Int) : Nat × Nat :=
  (num * twoTo (-e).toNat, den * twoTo e.toNat)

/-- The exponent at which the whole part of `num / den` has fifty-three bits,
but at least `leastExponent`. The logarithms fix it up to one step, which the
quotient decides. -/
def exponentOf (num den : Nat) : Int :=
  let low : Int := (num.log2 : Int) - den.log2 - 53
  let (n, d) := scaled num den low
  max leastExponent (if n / d < twoTo 53 then low else low + 1)

/-- The magnitude nearest to a fraction, even in the middle; none when the
fraction is past the greatest magnitude. Every rounding of this module is this
one. -/
def nearest? (num den : Nat) : Option Binary64 :=
  if num = 0 then some zero
  else
    let e := exponentOf num den
    let (n, d) := scaled num den e
    let whole := n / d
    let twice := 2 * (n % d)
    let rounded := if d < twice ∨ (twice = d ∧ whole % 2 = 1) then whole + 1 else whole
    let result : Binary64 :=
      if rounded = twoTo 53 then ⟨twoTo 52, e + 1⟩ else ⟨rounded, e⟩
    if greatestExponent < result.exponent then none else some result

/-- The numerator and the denominator of a magnitude. -/
def fraction (x : Binary64) : Nat × Nat :=
  (x.mantissa * twoTo x.exponent.toNat, twoTo (-x.exponent).toNat)

/-- The rounded product; none on overflow. -/
def mul? (x y : Binary64) : Option Binary64 :=
  nearest? (x.fraction.1 * y.fraction.1) (x.fraction.2 * y.fraction.2)

/-- The rounded quotient by a divisor of at least one, which cannot overflow. -/
def div (x y : Binary64) : Binary64 :=
  (nearest? (x.fraction.1 * y.fraction.2) (x.fraction.2 * y.fraction.1)).getD zero

/-- The magnitude nearest to a power of ten. -/
def powerOfTen (n : Nat) : Binary64 :=
  (nearest? (tenTo n) 1).getD zero

/-- The greatest power of ten that has a magnitude. -/
def greatestPower : Nat := 308

/-- Divide by a power of ten, in steps of the greatest one. Each step rounds. -/
def divideByPower (x : Binary64) (n : Nat) : Binary64 :=
  if n ≤ greatestPower then x.div (powerOfTen n)
  else if x.mantissa = 0 then x
  else divideByPower (x.div (powerOfTen greatestPower)) (n - greatestPower)
termination_by n
decreasing_by simp only [greatestPower]; omega

/-- The magnitude of `significand * 10 ^ exponent`, rounded at the significand
and at each multiplication or division. None past the greatest magnitude. -/
def ofScientific? (significand : Nat) : Int → Option Binary64
  | .ofNat n => do
    let x ← nearest? significand 1
    if n ≤ greatestPower then x.mul? (powerOfTen n)
    else if x.mantissa = 0 then some x
    else none
  | .negSucc n => do
    let x ← nearest? significand 1
    some (divideByPower x (n + 1))

end Binary64

end Yang
