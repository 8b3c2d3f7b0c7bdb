import Yang.Binary64.Shortest
import Yang.Json.Token
import Yang.Text.Digit

/-!
# JSON numbers

A number without fraction and exponent that fits in sixty-four bits is an integer.
Every other number is a double: its digits are gathered into a significand of at most
sixty-four bits, and a power of ten makes up for the position of the point. Doubles
are written with the fewest digits that denote them, positionally for the decimal
exponents from -5 to 15 and scientifically outside.
-/

namespace Yang.Json

/-- The value of a number in a document: an integer if it is written as one and
fits in sixty-four bits, else a double. -/
inductive Number
  | integer (n : Int)
  | double (negative : Bool) (magnitude : Binary64)
deriving DecidableEq, Repr

def digitValue (c : Char) : Nat := (Text.digit? 10 c).getD 0

def digitsValue (cs : List Char) : Nat := Text.ofDigits 10 (cs.map digitValue)

def decimalDigits (n : Nat) : List Char := Nat.toDigits 10 n

def significandBound : Nat := 0x10000000000000000

/-- Append digits to a significand for as long as it stays in its bound. The
result is the significand and the digits that are left over. -/
def gather (significand : Nat) : List Char → Nat × List Char
  | [] => (significand, [])
  | c :: cs =>
    let next := significand * 10 + digitValue c
    if next < significandBound then gather next cs else (significand, c :: cs)

/-- Exponents past this bound denote zero or no number. -/
def exponentBound : Nat := 0x80000000

/-- The double written by a numeral; none when it is out of range. Digits of the
whole part that do not fit count in the exponent, and digits of the fraction
that do not fit are dropped. -/
def Numeral.double? (n : Numeral) : Option Number := do
  let (whole, wholeLeft) := gather 0 n.whole
  let (significand, fractionLeft) := gather whole n.fraction
  let start : Int := (wholeLeft.length : Int) - (n.fraction.length - fractionLeft.length)
  let exponent ←
    match n.exponent with
    | none => some start
    | some (negative, digits) =>
      let size := digitsValue digits
      if size < exponentBound then some (if negative then start - size else start + size)
      else if significand = 0 ∨ negative then some (-exponentBound)
      else none
  let magnitude ← Binary64.ofScientific? significand exponent
  some (.double n.negative magnitude)

/-- The number written by a numeral; none when it is out of range. A negative
zero is a double, because no integer has its sign. -/
def Number.ofNumeral? (n : Numeral) : Option Number :=
  let size := digitsValue n.whole
  if n.fraction = [] ∧ n.exponent = none ∧
      (if n.negative then 0 < size ∧ size ≤ 0x8000000000000000 else size < significandBound) then
    some (.integer (if n.negative then -size else size))
  else n.double?

/-- Lay out `digits * 10 ^ exponent`, the digits being those of a positive
number. -/
def layout (negative : Bool) (digits : List Char) (exponent : Int) : Numeral :=
  let scientific : Int := exponent + digits.length - 1
  if 0 ≤ exponent ∧ scientific < 16 then
    ⟨negative, digits ++ List.replicate exponent.toNat '0', ['0'], none⟩
  else if 0 ≤ scientific ∧ scientific < 16 then
    let whole := scientific.toNat + 1
    ⟨negative, digits.take whole, digits.drop whole, none⟩
  else if -5 ≤ scientific ∧ scientific < 0 then
    ⟨negative, ['0'], List.replicate (-scientific - 1).toNat '0' ++ digits, none⟩
  else
    ⟨negative, digits.take 1, digits.drop 1,
      some (scientific < 0, decimalDigits scientific.natAbs)⟩

def Number.numeral : Number → Numeral
  | .integer n => ⟨n < 0, decimalDigits n.natAbs, [], none⟩
  | .double negative magnitude =>
    if magnitude.mantissa = 0 then ⟨negative, ['0'], ['0'], none⟩
    else
      let shortest := magnitude.shortest
      layout negative (decimalDigits shortest.digits) shortest.exponent

/-- The text of a numeral. An exponent shows its sign. -/
def Numeral.text (n : Numeral) : List Char :=
  (if n.negative then ['-'] else []) ++ n.whole ++
    (if n.fraction.isEmpty then [] else '.' :: n.fraction) ++
    match n.exponent with
    | none => []
    | some (negative, digits) => 'e' :: (if negative then '-' else '+') :: digits

def Number.text (n : Number) : String :=
  String.ofList n.numeral.text

end Yang.Json
