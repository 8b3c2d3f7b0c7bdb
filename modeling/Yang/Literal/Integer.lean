import Yang.Builtin
import Yang.Error
import Yang.Text.Digit

/-!
# Integer literals

An integer literal is an optional sign and a numeral. What a numeral begins with
decides its base: sixteen after `0x` or `0X`, eight after a zero that is not the whole
numeral, ten otherwise. Numerals are read into a wide range first, past which they are
reported as an overflow, and then narrowed to the width of their type.
-/

namespace Yang.Literal

/-- A literal without its sign, and whether the sign is a minus. -/
def unsign : List Char → Bool × List Char
  | '-' :: r => (true, r)
  | '+' :: r => (false, r)
  | r => (false, r)

/-- The base of a numeral and the digits after the mark of the base. -/
def radix : List Char → Nat × List Char
  | '0' :: 'x' :: r => (16, r)
  | '0' :: 'X' :: r => (16, r)
  | '0' :: d :: r => (8, d :: r)
  | r => (10, r)

/-- The number written by a numeral: the mark of its base and at least one
digit. -/
def numeral? (cs : List Char) : Option Nat :=
  let (base, digits) := radix cs
  if digits.isEmpty then none else Text.number? base digits

/-- The greatest magnitude of the wide range. -/
def magnitudeBound : Nat := 0x7fffffffffffffffffffffffffffffff

def integer (raw : String) : Except Error Int :=
  let (negative, numeral) := unsign raw.toList
  match numeral? numeral with
  | none => .error (.literal (.notInteger raw))
  | some n =>
    if n ≤ magnitudeBound then .ok (if negative then -(n : Int) else n)
    else .error (.literal (.integerOverflow raw))

def integerOf (t : IntegerType) (raw : String) : Except Error { n : Int // t.Holds n } :=
  match integer raw with
  | .error e => .error e
  | .ok n =>
    if h : t.Holds n then .ok ⟨n, h⟩
    else .error (.literal (.outsideSpace raw t.keyword))

end Yang.Literal
