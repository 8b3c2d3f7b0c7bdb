import Yang.Base64
import Yang.Builtin
import Yang.Decimal.Literal
import Yang.Name
import Yang.Text.Blank
import Yang.Text.Cut

/-!
# Literals

The literals of the types that are not integers. Each function says what a literal
denotes or why it denotes nothing. Blanks are removed from binary literals wherever
they stand; in a literal of bits they separate the names, of which each counts once.
-/

namespace Yang.Literal

def fractionBound : Nat := 18

/-- The number is a signed integer of sixty-four bits, scaled by at most
eighteen digits. -/
def IsDecimal64 (d : Decimal) : Prop :=
  d.scale ≤ fractionBound ∧ IntegerType.int64.Holds d.mantissa

instance (d : Decimal) : Decidable (IsDecimal64 d) := inferInstanceAs (Decidable (_ ∧ _))

/-- The text begins or ends with a point, or is empty. -/
def lacksDigit (cs : List Char) : Bool :=
  cs.isEmpty || cs.head? == some '.' || cs.getLast? == some '.'

/-- The number written by a literal of type decimal64. The number that was read
is tested, not the digits of the literal: what the reader rounds counts as
rounded. -/
def decimal64 (raw : String) : Except Error Decimal :=
  if lacksDigit raw.toList then .error (.literal (.notDecimal raw))
  else
    match Decimal.parse? raw with
    | none => .error (.literal (.notDecimal raw))
    | some d =>
      if IsDecimal64 d then .ok d
      else .error (.literal (.outsideSpace raw "decimal64"))

def boolean (raw : String) : Except Error Bool :=
  if raw = "true" then .ok true
  else if raw = "false" then .ok false
  else .error (.literal (.notBoolean raw))

def binary (raw : String) : Except Error (List UInt8) :=
  match Base64.decode? (raw.toList.filter fun c => !Text.isBlank c) with
  | some bytes => .ok bytes
  | none => .error (.literal .notBase64)

/-- Add the names to those before them that are in `seen`, each name once. -/
def collectBits (seen : List String) : List String → Except Error (List String)
  | [] => .ok seen
  | name :: rest =>
    if Name.isIdentifier name then
      collectBits (if name ∈ seen then seen else seen ++ [name]) rest
    else .error (.literal (.notBitName name))

def bits (raw : String) : Except Error (List String) :=
  collectBits [] (Text.words raw)

/-- Fail if the literal is no name of an enumeration: it must not be empty, nor
begin or end with a blank. -/
def checkEnumName (raw : String) : Except Error Unit :=
  if raw ≠ "" ∧ Text.trim raw = raw then .ok () else .error (.literal (.notEnumName raw))

/-- The text is an identifier, or two of them around a colon. -/
def isIdentity (raw : String) : Bool :=
  match Text.cutText? ":" raw with
  | some (qualifier, name) => Name.isIdentifier qualifier && Name.isIdentifier name
  | none => Name.isIdentifier raw

def checkIdentity (raw : String) : Except Error Unit :=
  if isIdentity raw then .ok () else .error (.literal (.notIdentity raw))

/-- Fail if the literal is not an absolute path below the root. -/
def checkInstancePath (raw : String) : Except Error Unit :=
  match raw.toList with
  | '/' :: _ :: _ => .ok ()
  | _ => .error (.literal (.notInstancePath raw))

end Yang.Literal
