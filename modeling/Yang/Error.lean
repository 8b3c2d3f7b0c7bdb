import Yang.Location
import Yang.Schema.Kind
import Yang.Text.Utf8
import Yang.Uri

/-!
# Errors

Every operation that can fail says why. An error has a kind, by which callers decide
what to do, and within the kind a cause that holds what the message needs. The wording
is derived from the cause in one place for each kind and is not stored. The faults of
malformed JSON and XML texts have no wording of their own.
-/

namespace Yang

/-- Why a literal has no value of its type. -/
inductive LiteralFault
  | notInteger (literal : String)
  | integerOverflow (literal : String)
  /-- The literal is well-formed, but its value does not fit in the type. -/
  | outsideSpace (literal type : String)
  | notDecimal (literal : String)
  | notBoolean (literal : String)
  | notBase64
  | notBitName (name : String)
  | notEnumName (literal : String)
  | notIdentity (literal : String)
  | notInstancePath (literal : String)
  | notEmpty (literal : String)
  /-- The type only points at another type. -/
  | indirectType (type literal : String)
  /-- A range stands on a type without an order of magnitude. -/
  | notRangeable (type : String)
deriving DecidableEq, Repr

def LiteralFault.message : LiteralFault → String
  | .notInteger literal => s!"'{literal}' is not a valid integer literal"
  | .integerOverflow literal => s!"'{literal}' overflows the integer range"
  | .outsideSpace literal type => s!"value '{literal}' is out of the {type} value space"
  | .notDecimal literal => s!"'{literal}' is not a valid decimal64 literal"
  | .notBoolean literal => s!"'{literal}' is not a valid boolean value"
  | .notBase64 => "not a valid base64 encoding"
  | .notBitName name => s!"'{name}' is not a valid bit name"
  | .notEnumName literal => s!"'{literal}' is not a valid enum name"
  | .notIdentity literal => s!"'{literal}' is not a valid identity reference"
  | .notInstancePath literal => s!"'{literal}' is not an absolute instance identifier"
  | .notEmpty literal => s!"'{literal}' is not a valid empty value"
  | .indirectType type literal =>
    s!"type {type} needs resolved type information to parse '{literal}'"
  | .notRangeable type => s!"type {type} does not admit a range restriction"

/-- Why an interval is not in order. -/
inductive OrderFault
  /-- The bounds are not numbers, or the first is past the second. -/
  | reversed (start stop : String)
  /-- The interval does not begin past the intervals before it. -/
  | notAscending (interval : String)
deriving DecidableEq, Repr

def OrderFault.message : OrderFault → String
  | .reversed start stop =>
    s!"Range interval start {start} is not lesser than or equal to its end {stop}"
  | .notAscending interval =>
    s!"New added range interval {interval} is lesser than the old interval(s)"

/-- What was asked of a restriction without intervals. -/
inductive EmptinessFault
  | noBound
  | noInterval
deriving DecidableEq, Repr

def EmptinessFault.message : EmptinessFault → String
  | .noBound => "No range interval info"
  | .noInterval => "Range interval missing in range restriction."

/-- Why a path leads to no schema node. -/
inductive PathFault
  | noModule
  | noNode (path : String)
  | noMatch (path : String)
deriving DecidableEq, Repr

def PathFault.message : PathFault → String
  | .noModule => "path has no module segment"
  | .noNode path => s!"path {path} names no node below its module"
  | .noMatch path => s!"no schema node matches {path}"

/-- Why a key cannot stand where it was put. -/
inductive KeyFault
  | leafListTakesNoKeyLeaf
  | keyLeafWithoutList (name : String)
  | leafListAfterLeafList
  | nothingToRemove
  | leafListIsLast
  | afterLeafList (key : String)
deriving DecidableEq, Repr

def KeyFault.message : KeyFault → String
  | .leafListTakesNoKeyLeaf => "leaf-list is terminal, it cannot take key leaves"
  | .keyLeafWithoutList name => s!"key leaf '{name}' has no list branch point to attach to"
  | .leafListAfterLeafList => "a leaf-list entry cannot follow another leaf-list entry"
  | .nothingToRemove => "no finalized key to remove"
  | .leafListIsLast => "leaf-list is terminal, no key may follow it"
  | .afterLeafList key => s!"key '{key}' cannot follow a leaf-list entry"

/-- Why a model cannot be registered. -/
inductive ModelFault
  | badId (id : String)
  | noModules (id : String)
  | unknownModule (id module : String)
  | moduleTaken (module owner : String)
deriving DecidableEq, Repr

def ModelFault.message : ModelFault → String
  | .badId id => s!"Invalid model id {id}"
  | .noModules id => s!"model '{id}' has no modules"
  | .unknownModule id module =>
    s!"model '{id}' names module {module} which is not in the schema tree"
  | .moduleTaken module owner => s!"module {module} is already registered by model '{owner}'"

/-- Why a schema cannot be extended or used as asked. -/
inductive SchemaFault
  | badIdentifier (name : String)
  | badRevision (text : String)
  | moduleDefined (name : String) (revision : Option String)
  | selfImport (name : String)
  | badTarget (path : String) (kind : NodeKind)
  | missingKey (list key : String)
  | unknownNode (index : Nat)
  | wrongKind (path : String) (kind : NodeKind) (expected : List NodeKind)
  | misplaced (kind : NodeKind) (path : String) (parent : NodeKind)
  | childExists (path name : String)
  | dataNodeExists (path name : String)
  | notAnydata (path : String) (kind : NodeKind)
deriving DecidableEq, Repr

def SchemaFault.message : SchemaFault → String
  | .badIdentifier name => s!"Invalid YANG identifier: '{name}'"
  | .badRevision text => s!"Invalid revision date: '{text}'"
  | .moduleDefined name revision =>
    let shown := revision.getD "<none>"
    s!"module '{name}' with revision {shown} is already defined"
  | .selfImport name => s!"module '{name}' cannot import itself"
  | .badTarget path kind =>
    s!"augment target {path} is a {kind.keyword}, not an interior data node"
  | .missingKey list key => s!"list '{list}' names key '{key}' which is not one of its leaves"
  | .unknownNode index => s!"unknown schema node #{index}"
  | .wrongKind path kind expected =>
    let titles := ", ".intercalate (expected.map NodeKind.title)
    s!"{path} is a {kind.keyword}, expected one of [{titles}]"
  | .misplaced kind path parent =>
    s!"a {kind.keyword} cannot be placed under {path} ({parent.keyword})"
  | .childExists path name => s!"{path} already has a child named '{name}'"
  | .dataNodeExists path name => s!"{path} already holds a data node named '{name}'"
  | .notAnydata path kind => s!"{path} resolves to a {kind.keyword}, not an anydata node"

/-- Why data cannot be written. -/
inductive EncodeFault
  | unknownNamespace (ns : String)
  | mixedMember (member : String)
  | repeatedMember (member : String)
  | childOfLeaf (leaf child : String)
deriving DecidableEq, Repr

def EncodeFault.message : EncodeFault → String
  | .unknownNamespace ns => s!"no module defines namespace {ns}"
  | .mixedMember member => s!"'{member}' mixes list entries with a single value"
  | .repeatedMember member => s!"'{member}' appears more than once"
  | .childOfLeaf leaf child => s!"leaf '{leaf}' cannot hold child '{child}'"

/-- Why a payload cannot be read as data of a schema. -/
inductive DecodeFault
  | notText (fault : Text.Utf8.Fault)
  | noType (path : String)
  | missingKeyLeaf (list key : String)
  | unknownModule (member : String)
  | unqualified (member : String)
  | unknownMember (member path : String)
  | notObject (path : String)
  | notTopObject
  | notLeafValue (json : String)
  | notArray (member : String)
  | unknownElement (name path : String)
  | noNamespace (name : String)
  | unknownNamespace (ns : String)
deriving DecidableEq, Repr

def DecodeFault.message : DecodeFault → String
  | .notText fault => "payload is not UTF-8: " ++ fault.message
  | .noType path => s!"{path} carries no type"
  | .missingKeyLeaf list key => s!"entry of list {list} lacks key leaf '{key}'"
  | .unknownModule member => s!"member '{member}' names an unknown module"
  | .unqualified member => s!"top-level member '{member}' must be module-qualified"
  | .unknownMember member path => s!"'{member}' is not a data node under {path}"
  | .notObject path => s!"{path} expects a JSON object"
  | .notTopObject => "top-level JSON value must be an object"
  | .notLeafValue json => s!"{json} is not a leaf value"
  | .notArray member => s!"'{member}' expects a JSON array"
  | .unknownElement name path => s!"<{name}> is not a data node under {path}"
  | .noNamespace name => s!"top-level element <{name}> has no namespace"
  | .unknownNamespace ns => s!"no module defines namespace {ns}"

/-- A quantity that is bounded, so that hostile input cannot cause unbounded
work. -/
inductive Quantity
  | derivationDepth
  | pathDepth
  | keyLeaves
  | payloadSize
  | dataDepth
deriving DecidableEq, Repr

/-- How it is reported that a quantity is past its bound. -/
def Quantity.excess (q : Quantity) (actual bound : Nat) : String :=
  match q with
  | .derivationDepth => s!"type derivation depth {actual} exceeds maximum {bound}"
  | .pathDepth => s!"path depth {actual} exceeds maximum {bound}"
  | .keyLeaves => s!"key leaf count {actual} exceeds maximum {bound}"
  | .payloadSize => s!"payload size {actual} bytes exceeds maximum {bound} bytes"
  | .dataDepth => s!"data tree depth {actual} exceeds maximum {bound}"

/-- An error, by kind and cause. -/
inductive Error
  | literal (fault : LiteralFault)
  /-- A value lies outside every interval of a range. -/
  | outsideRange (value range : String)
  /-- A restriction is wider than the one it derives from. -/
  | wider (interval ranges : String) (location : Option Location)
  | outOfOrder (fault : OrderFault) (location : Option Location)
  | emptyRestriction (fault : EmptinessFault) (location : Option Location)
  /-- Every member type of a union rejected the literal. -/
  | noUnionMember (literal : String) (members : Nat)
  | path (fault : PathFault)
  | key (fault : KeyFault)
  | duplicateModel (id : String)
  | model (fault : ModelFault)
  | moduleNotRegistered (module : String)
  | formatNotBound (format : String)
  | schema (fault : SchemaFault)
  | encode (fault : EncodeFault)
  | decode (fault : DecodeFault)
  | malformedJson
  | malformedXml
  | uri (fault : UriFault)
  | limitExceeded (quantity : Quantity) (actual bound : Nat)
deriving DecidableEq, Repr

inductive ErrorKind
  | literalFormat
  | rangeViolation
  | restrictionNarrowing
  | outOfOrder
  | emptyRestriction
  | noUnionMemberMatched
  | unresolvedSchemaPath
  | invalidKeyComposition
  | duplicateModel
  | invalidModel
  | modelNotFound
  | formatNotRegistered
  | schema
  | encode
  | decode
  | json
  | xml
  | uri
  | limitExceeded
deriving DecidableEq, Repr

namespace Error

def kind : Error → ErrorKind
  | .literal _ => .literalFormat
  | .outsideRange _ _ => .rangeViolation
  | .wider _ _ _ => .restrictionNarrowing
  | .outOfOrder _ _ => .outOfOrder
  | .emptyRestriction _ _ => .emptyRestriction
  | .noUnionMember _ _ => .noUnionMemberMatched
  | .path _ => .unresolvedSchemaPath
  | .key _ => .invalidKeyComposition
  | .duplicateModel _ => .duplicateModel
  | .model _ => .invalidModel
  | .moduleNotRegistered _ => .modelNotFound
  | .formatNotBound _ => .formatNotRegistered
  | .schema _ => .schema
  | .encode _ => .encode
  | .decode _ => .decode
  | .malformedJson => .json
  | .malformedXml => .xml
  | .uri _ => .uri
  | .limitExceeded _ _ _ => .limitExceeded

/-- The error was raised because a literal has no value of its type. -/
def isLiteral (e : Error) : Bool :=
  match e.kind with
  | .literalFormat | .rangeViolation | .noUnionMemberMatched => true
  | _ => false

/-- The message of an error: its kind in words, then its cause. -/
def message : Error → String
  | .literal fault => "literal format error: " ++ fault.message
  | .outsideRange value range =>
    s!"range violation: value {value} is outside the range {range}"
  | .wider interval ranges location =>
    let text := s!"Range interval {interval} doesn't fall within the referred " ++
      s!"restriction ranges {ranges}"
    "restriction narrowing error: " ++ (Remark.mk text location).text
  | .outOfOrder fault location =>
    "out of order interval: " ++ (Remark.mk fault.message location).text
  | .emptyRestriction fault location =>
    "empty restriction: " ++ (Remark.mk fault.message location).text
  | .noUnionMember raw members =>
    s!"no union member matched: value '{raw}' matched none of the {members} member types"
  | .path fault => "unresolved schema path: " ++ fault.message
  | .key fault => "invalid key composition: " ++ fault.message
  | .duplicateModel id => s!"model with id '{id}' already exists"
  | .model fault => "invalid model: " ++ fault.message
  | .moduleNotRegistered module => s!"model not found: module {module} is not registered"
  | .formatNotBound format => s!"data format {format} is not registered"
  | .schema fault => "schema error: " ++ fault.message
  | .encode fault => "encoding error: " ++ fault.message
  | .decode fault => "decoding error: " ++ fault.message
  | .malformedJson => "JSON error: the text is not a JSON document of the expected form"
  | .malformedXml => "XML error: the text is not a well-formed document"
  | .uri fault => "URL error: " ++ fault.message
  | .limitExceeded quantity actual bound => "limit exceeded: " ++ quantity.excess actual bound

end Error

end Yang
