import Yang.Decimal
import Yang.Text.Digit

/-!
# Decimal literals

A literal has an optional sign and digits with at most one point among them; after the
first digit underscores are skipped. The digits form a mantissa below `2 ^ 96`. A whole
part that does not fit is refused. Fraction digits past the twenty-eighth, or past the
mantissa, are rounded away, a half going up. A literal that is not of this form may
still be one in scientific notation: such a form, the letter `e`, and an exponent that
moves the point, within the same bounds on digits and scale.
-/

namespace Yang.Decimal

def mantissaBound : Nat := 0x1000000000000000000000000

def scaleBound : Nat := 28

/-- What has been read of a literal: whether the point was passed, whether there
was a digit, and the digits so far with the number of those behind the point. -/
structure Reading where
  point : Bool
  digit : Bool
  mantissa : Nat
  scale : Nat

/-- End a reading at a character that no longer fits. It decides the direction
of the rounding, an underscore counting as zero; what follows has to be of the
form of a literal all the same. -/
def Reading.round? (r : Reading) (c : Char) (rest : List Char) : Option (Nat × Nat) :=
  if rest.all (fun d => d.isDigit || d == '_') then
    match if c == '_' then some 0 else Text.digit? 10 c with
    | none => none
    | some d =>
      if d < 5 then some (r.mantissa, r.scale)
      else if r.mantissa + 1 < mantissaBound then some (r.mantissa + 1, r.scale)
      else if r.scale = 0 then none
      else some ((r.mantissa + 5) / 10, r.scale - 1)
  else none

/-- Read the rest of a literal after its sign: the mantissa and the scale. -/
def Reading.finish? (r : Reading) : List Char → Option (Nat × Nat)
  | [] => if r.digit then some (r.mantissa, r.scale) else none
  | c :: cs =>
    if r.point && scaleBound ≤ r.scale then r.round? c cs
    else
      match Text.digit? 10 c with
      | some d =>
        let next := r.mantissa * 10 + d
        if next < mantissaBound then
          Reading.finish?
            ⟨r.point, true, next, if r.point then r.scale + 1 else r.scale⟩ cs
        else if r.point then r.round? c cs
        else none
      | none =>
        if c == '.' && !r.point then Reading.finish? { r with point := true } cs
        else if c == '_' && r.digit then Reading.finish? r cs
        else none

def unsigned? (cs : List Char) : Option (Nat × Nat) :=
  Reading.finish? ⟨false, false, 0, 0⟩ cs

def plain? : List Char → Option Decimal
  | '-' :: cs => (unsigned? cs).map fun (m, s) => ⟨-m, s⟩
  | '+' :: cs => (unsigned? cs).map fun (m, s) => ⟨m, s⟩
  | cs => (unsigned? cs).map fun (m, s) => ⟨m, s⟩

/-- The size of an exponent: digits after an optional plus sign, of at most
thirty-two bits. -/
def exponentSize? (cs : List Char) : Option Nat :=
  let digits :=
    match cs with
    | '+' :: r => r
    | r => r
  if digits.isEmpty then none else (Text.number? 10 digits).filter (· < 0x100000000)

/-- Divide by a power of ten, a half going away from zero. -/
def roundedQuotient (m : Int) (power : Nat) : Int :=
  let d := tenTo power
  m.sign * ((m.natAbs * 2 + d) / (2 * d))

/-- Move the point to the left. Past the greatest scale digits are rounded away. -/
def shiftLeft? (d : Decimal) (n : Nat) : Option Decimal :=
  if scaleBound < n then none
  else if d.scale + n ≤ scaleBound then some ⟨d.mantissa, d.scale + n⟩
  else some ⟨roundedQuotient d.mantissa (d.scale + n - scaleBound), scaleBound⟩

/-- Move the point to the right. Past the last digit zeros are appended. -/
def shiftRight? (d : Decimal) (n : Nat) : Option Decimal :=
  if n ≤ d.scale then some ⟨d.mantissa, d.scale - n⟩
  else if scaleBound < n then none
  else
    let m := d.mantissa * tenTo (n - d.scale)
    if m.natAbs < mantissaBound then some ⟨m, 0⟩ else none

def isExponentMark (c : Char) : Bool := c == 'e' || c == 'E'

/-- Read a literal with an exponent, whose mark is the first one in the literal. -/
def scientific? (cs : List Char) : Option Decimal :=
  match plain? (cs.takeWhile fun c => !isExponentMark c),
      cs.dropWhile fun c => !isExponentMark c with
  | some d, _ :: '-' :: r => (exponentSize? r).bind d.shiftLeft?
  | some d, _ :: r => (exponentSize? r).bind d.shiftRight?
  | _, _ => none

/-- The decimal number written by a literal. A literal with an exponent is read
only if it is no plain one; its mantissa is read first and may already be
rounded when the point is moved. -/
def parse? (s : String) : Option Decimal :=
  (plain? s.toList).orElse fun _ => scientific? s.toList

end Yang.Decimal
