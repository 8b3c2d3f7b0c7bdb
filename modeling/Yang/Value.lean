import Yang.Json.Value
import Yang.Literal
import Yang.Literal.Integer

/-!
# Values

A value is what a literal denotes, together with the built-in type it was read with.
Integers of every width and decimal numbers are ordered by their magnitude and are
equal when their magnitudes are; no other value equals a number. The type `empty` also
takes the two truth values, which older encoders wrote for it.
-/

namespace Yang

inductive Value
  | integer (t : IntegerType) (n : Int) (holds : t.Holds n)
  | decimal (d : Decimal)
  | text (s : String)
  | flag (b : Bool)
  | binary (bytes : List UInt8)
  /-- The names of the bits that are set, in the order of the literal. -/
  | bits (names : List String)
  | enumeration (name : String)
  | identity (name : String)
  | instancePath (path : String)
  | empty
deriving DecidableEq

namespace Value

/-- The value of a literal. Types that only point at another type have no
literals of their own, so the type has to be resolved before. -/
def parse (raw : String) : Builtin → Except Error Value
  | .integer t => do
    let ⟨n, holds⟩ ← Literal.integerOf t raw
    return .integer t n holds
  | .decimal64 => .decimal <$> Literal.decimal64 raw
  | .string => .ok (.text raw)
  | .boolean => .flag <$> Literal.boolean raw
  | .binary => .binary <$> Literal.binary raw
  | .bits => .bits <$> Literal.bits raw
  | .enumeration => do
    Literal.checkEnumName raw
    return .enumeration raw
  | .identityref => do
    Literal.checkIdentity raw
    return .identity raw
  | .instanceIdentifier => do
    Literal.checkInstancePath raw
    return .instancePath raw
  | .empty =>
    if raw = "" then .ok .empty
    else
      match Literal.boolean raw with
      | .ok b => .ok (.flag b)
      | .error _ => .error (.literal (.notEmpty raw))
  | t => .error (.literal (.indirectType t.text raw))

def type : Value → Builtin
  | .integer t _ _ => .integer t
  | .decimal _ => .decimal64
  | .text _ => .string
  | .flag _ => .boolean
  | .binary _ => .binary
  | .bits _ => .bits
  | .enumeration _ => .enumeration
  | .identity _ => .identityref
  | .instancePath _ => .instanceIdentifier
  | .empty => .empty

/-- The number that a value denotes, if it denotes one. -/
def magnitude? : Value → Option Decimal
  | .integer _ n _ => some (.ofInt n)
  | .decimal d => some d
  | _ => none

def isNumeric (v : Value) : Bool := v.magnitude?.isSome

def literal : Value → String
  | .integer _ n _ => toString n
  | .decimal d => d.text
  | .flag b => if b then "true" else "false"
  | .binary bytes => String.ofList (Base64.encode bytes)
  | .bits names => " ".intercalate names
  | .text s | .enumeration s | .identity s | .instancePath s => s
  | .empty => ""

/-- The JSON form of a value. Integers of sixty-four bits and decimal numbers
are strings, since a JSON number could lose digits of theirs. -/
def json : Value → Json.Value
  | .integer t n holds =>
    if t.width < 64 then .number (.integer n) else .string (literal (.integer t n holds))
  | .flag b => .boolean b
  | .empty => .array [.null]
  | v => .string v.literal

/-- The two are equal: as numbers, or else in type and content. The types of
numbers do not count, nor do zeros at the end of a decimal. -/
def same (a b : Value) : Bool :=
  match a.magnitude?, b.magnitude? with
  | some x, some y => x.same y
  | none, none => a == b
  | _, _ => false

/-- The order of two values. Numbers are ordered by magnitude, texts and truth
values among themselves; otherwise only equal values compare. -/
def compare? (a b : Value) : Option Ordering :=
  match a.magnitude?, b.magnitude? with
  | some x, some y => some (x.compare y)
  | none, none =>
    match a, b with
    | .text s, .text t => some (compare s t)
    | .flag s, .flag t => some (compare s t)
    | _, _ => if a = b then some .eq else none
  | _, _ => none

def atMost (a b : Value) : Bool :=
  match a.compare? b with
  | some .lt | some .eq => true
  | _ => false

/-- What a hash of a value depends on: a number at its least scale, or the
value. Equal values have the same. -/
def hashKey (v : Value) : Value :=
  match v.magnitude? with
  | some d => .decimal d.normal
  | none => v

def bounds? : Builtin → Option (Value × Value)
  | .integer t =>
    some (.integer t t.least t.holds_least, .integer t t.greatest t.holds_greatest)
  | .decimal64 =>
    some (.decimal (.ofInt IntegerType.int64.least),
      .decimal (.ofInt IntegerType.int64.greatest))
  | _ => none

theorem isNumeric_of_magnitude? {v : Value} {d : Decimal} (h : v.magnitude? = some d) :
    v.isNumeric = true := by
  simp [isNumeric, h]

end Value

end Yang
