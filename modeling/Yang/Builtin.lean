import Yang.Text.Digit

/-!
# Built-in types

The closed catalogue of types that a schema can name. The eight integer types differ
only in width and sign and are one constructor. Leafrefs, unions and references to a
typedef point at other types; the last has no keyword of its own. Each type has a
native representation, the carrier that generated code should use: unsigned integers
take the next wider signed carrier.
-/

namespace Yang

inductive IntegerType
  | int8
  | int16
  | int32
  | int64
  | uint8
  | uint16
  | uint32
  | uint64
deriving DecidableEq, Repr

namespace IntegerType

def width : IntegerType → Nat
  | .int8 | .uint8 => 8
  | .int16 | .uint16 => 16
  | .int32 | .uint32 => 32
  | .int64 | .uint64 => 64

def isSigned : IntegerType → Bool
  | .int8 | .int16 | .int32 | .int64 => true
  | _ => false

def least (t : IntegerType) : Int :=
  if t.isSigned then -(twoTo (t.width - 1) : Int) else 0

def greatest (t : IntegerType) : Int :=
  (if t.isSigned then twoTo (t.width - 1) else twoTo t.width : Int) - 1

/-- The number is one of the type. -/
def Holds (t : IntegerType) (n : Int) : Prop := t.least ≤ n ∧ n ≤ t.greatest

instance (t : IntegerType) (n : Int) : Decidable (t.Holds n) :=
  inferInstanceAs (Decidable (_ ∧ _))

def keyword : IntegerType → String
  | .int8 => "int8"
  | .int16 => "int16"
  | .int32 => "int32"
  | .int64 => "int64"
  | .uint8 => "uint8"
  | .uint16 => "uint16"
  | .uint32 => "uint32"
  | .uint64 => "uint64"

theorem holds_least (t : IntegerType) : t.Holds t.least := by
  cases t <;> decide

theorem holds_greatest (t : IntegerType) : t.Holds t.greatest := by
  cases t <;> decide

end IntegerType

/-- The carrier that generated code should use for a type. -/
inductive NativeForm
  | signedInteger (width : Nat)
  | bigInteger
  | decimal
  | text
  | flag
  | bytes
  | bitSet
  | enumerated
  | identity
  /-- Decided by the type that is pointed at. -/
  | indirect
deriving DecidableEq, Repr

inductive Builtin
  | integer (t : IntegerType)
  | decimal64
  | string
  | boolean
  | binary
  | bits
  | enumeration
  | identityref
  | instanceIdentifier
  | leafref
  /-- A reference to a typedef. -/
  | derived
  | union
  | empty
deriving DecidableEq, Repr

namespace Builtin

def all : List Builtin :=
  [.integer .int8, .integer .int16, .integer .int32, .integer .int64, .integer .uint8,
    .integer .uint16, .integer .uint32, .integer .uint64, .decimal64, .string, .boolean,
    .binary, .bits, .enumeration, .identityref, .instanceIdentifier, .leafref, .derived,
    .union, .empty]

def keyword? : Builtin → Option String
  | .integer t => some t.keyword
  | .decimal64 => some "decimal64"
  | .string => some "string"
  | .boolean => some "boolean"
  | .binary => some "binary"
  | .bits => some "bits"
  | .enumeration => some "enumeration"
  | .identityref => some "identityref"
  | .instanceIdentifier => some "instance-identifier"
  | .leafref => some "leafref"
  | .derived => none
  | .union => some "union"
  | .empty => some "empty"

/-- The type with a keyword. Any other name refers to a typedef. -/
def ofKeyword? (keyword : String) : Option Builtin :=
  all.find? fun t => t.keyword? == some keyword

def text (t : Builtin) : String := t.keyword?.getD "derived"

def isInteger : Builtin → Bool
  | .integer _ => true
  | _ => false

/-- Values of the type are ordered by magnitude. -/
def isNumeric (t : Builtin) : Bool := t.isInteger || t == .decimal64

/-- The type only points at another type. Literals are not read by its keyword,
but by what it points at. -/
def isIndirect : Builtin → Bool
  | .leafref | .derived | .union => true
  | _ => false

def native : Builtin → NativeForm
  | .integer .uint64 => .bigInteger
  | .integer t => .signedInteger (if t.isSigned then t.width else 2 * t.width)
  | .decimal64 => .decimal
  | .string | .instanceIdentifier => .text
  | .boolean | .empty => .flag
  | .binary => .bytes
  | .bits => .bitSet
  | .enumeration => .enumerated
  | .identityref => .identity
  | .leafref | .derived | .union => .indirect

theorem mem_all (t : Builtin) : t ∈ all := by
  cases t with
  | integer t => cases t <;> decide
  | _ => decide

/-- A keyword names its type. -/
theorem ofKeyword?_of_keyword? {t : Builtin} {k : String} (h : t.keyword? = some k) :
    ofKeyword? k = some t := by
  cases t with
  | integer t => cases t <;> (cases h; decide)
  | derived => cases h
  | _ => cases h; decide

end Builtin

end Yang
