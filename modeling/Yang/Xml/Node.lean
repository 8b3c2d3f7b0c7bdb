import Yang.Xml.Text
import Yang.Xml.Token

/-!
# Documents of XML

A document is a tree of elements, texts and asides. The name of an element is qualified
by a namespace, which the declarations in the element and around it give to its
qualifier. Adjacent texts are one, and asides separate texts. The tree is read by a
machine whose state holds the open elements, innermost first.
-/

namespace Yang.Xml

inductive Node
  | element (ns : Option String) (name : String) (children : List Node)
  | text (s : String)
  /-- A comment or an instruction. -/
  | aside

namespace Node

def isElement : Node → Bool
  | .element _ _ _ => true
  | _ => false

/-- The text at the front of the children; there is none if something else is. -/
def leadingText : List Node → String
  | .text s :: _ => s
  | _ => ""

end Node

def xmlNamespace : String :=
  "/".intercalate ["http:", "", "www.w3.org", "XML", "1998", "namespace"]

def declarationNamespace : String :=
  "/".intercalate ["http:", "", "www.w3.org", "2000", "xmlns", ""]

/-- The word that marks declarations of namespaces. -/
def declarationMark : List Char := ['x', 'm', 'l', 'n', 's']

/-- The qualifier that needs no declaration. -/
def reservedQualifier : List Char := ['x', 'm', 'l']

/-- Namespaces by qualifier; the one of the empty qualifier is the default. -/
abbrev Scope := List (List Char × String)

/-- The qualifier that an attribute declares, if it is a declaration. -/
def declaredQualifier? (n : QualifiedName) : Option (List Char) :=
  if n.qualifier = declarationMark then some n.name
  else if n.name = declarationMark then some []
  else none

/-- The declaration of a qualifier is legal: the two reserved namespaces are
never declared, but that of `xml` may be declared for `xml`, and only that one. -/
def isLegalDeclaration (qualifier : List Char) (uri : String) : Bool :=
  uri != declarationNamespace && (qualifier == reservedQualifier) == (uri == xmlNamespace)

/-- Add the declarations among the attributes of an element to those before
them. No declaration of a qualifier may be repeated; of several declarations of
the default namespace the first one counts. -/
def declare? (declared : Scope) : List Attribute → Option Scope
  | [] => some declared
  | a :: rest =>
    match value? a.value with
    | none => none
    | some uri =>
      match declaredQualifier? a.name with
      | none => declare? declared rest
      | some qualifier =>
        if !isLegalDeclaration qualifier uri then none
        else if (declared.lookup qualifier).isSome then
          if qualifier.isEmpty then declare? declared rest else none
        else if uri == xmlNamespace then declare? declared rest
        else declare? ((qualifier, uri) :: declared) rest

/-- The namespace of an attribute; one without qualifier has none. -/
def attributeNamespace? (scope : Scope) (n : QualifiedName) : Option (Option String) :=
  if n.qualifier.isEmpty then some none
  else if n.qualifier = reservedQualifier then some (some xmlNamespace)
  else (scope.lookup n.qualifier).map some

/-- The attributes of an element that are not declarations have known
qualifiers, and no two of them have one name in one namespace. -/
def attributesAreLegal (scope : Scope) (seen : List (Option String × List Char)) :
    List Attribute → Bool
  | [] => true
  | a :: rest =>
    if (declaredQualifier? a.name).isSome then attributesAreLegal scope seen rest
    else
      match attributeNamespace? scope a.name with
      | none => false
      | some ns =>
        !seen.contains (ns, a.name.name) &&
          attributesAreLegal scope ((ns, a.name.name) :: seen) rest

/-- The namespace of an element; only one without qualifier may have none. -/
def elementNamespace? (scope : Scope) (n : QualifiedName) : Option (Option String) :=
  match scope.lookup n.qualifier with
  | some uri => some (some uri)
  | none => if n.qualifier.isEmpty then some none else none

/-- An element that is not closed yet, with its children so far, last first. -/
structure OpenElement where
  written : QualifiedName
  ns : Option String
  scope : Scope
  children : List Node

def OpenElement.close (e : OpenElement) : Node :=
  .element e.ns (String.ofList e.written.name) e.children.reverse

/-- What the reader has seen of a document. Children are in reverse order until
their element is closed. -/
structure Reader where
  /-- The open elements, innermost first. -/
  stack : List OpenElement := []
  /-- The root, once it is closed. -/
  root : Option Node := none

namespace Reader

def scope (r : Reader) : Scope :=
  match r.stack with
  | [] => []
  | e :: _ => e.scope

/-- Begin an element. There is only one root. -/
def open? (r : Reader) (name : QualifiedName) (attributes : List Attribute) :
    Option OpenElement :=
  if r.stack.isEmpty && r.root.isSome || name.qualifier = declarationMark then none
  else
    match declare? [] attributes with
    | none => none
    | some declared =>
      let scope := declared ++ r.scope
      match elementNamespace? scope name with
      | none => none
      | some ns =>
        if attributesAreLegal scope [] attributes then some ⟨name, ns, scope, []⟩ else none

/-- Add a child to the innermost open element, of which there must be one. -/
def addChild? (r : Reader) (n : Node) : Option Reader :=
  match r.stack with
  | [] => none
  | e :: outer => some { r with stack := { e with children := n :: e.children } :: outer }

def addElement (stack : List OpenElement) (root : Option Node) (n : Node) : Reader :=
  match stack with
  | [] => ⟨[], some n⟩
  | e :: outer => ⟨{ e with children := n :: e.children } :: outer, root⟩

/-- Add a text to the one directly before it, or else as a new child. -/
def addText? (r : Reader) (s : String) : Option Reader :=
  match r.stack with
  | { children := .text t :: others, written, ns, scope } :: outer =>
    some { r with stack := ⟨written, ns, scope, .text (t ++ s) :: others⟩ :: outer }
  | _ => r.addChild? (.text s)

/-- The state after a token, unless the token cannot stand there. Outside the
root there are only white space and asides. -/
def step (r : Reader) : Token → Option Reader
  | .start name attributes isEmpty =>
    match r.open? name attributes with
    | none => none
    | some e =>
      if isEmpty then some (addElement r.stack r.root e.close)
      else some { r with stack := e :: r.stack }
  | .finish name =>
    match r.stack with
    | [] => none
    | e :: outer => if e.written = name then some (addElement outer r.root e.close) else none
  | .text written =>
    if r.stack.isEmpty then if written.all isSpace then some r else none
    else (content? written).bind r.addText?
  | .characters written => r.addText? (characters written)
  | .aside => if r.stack.isEmpty then some r else r.addChild? .aside

def complete? (r : Reader) : Option Node := if r.stack.isEmpty then r.root else none

end Reader

def Node.ofTokens? (tokens : List Token) : Option Node :=
  (tokens.foldlM Reader.step {}).bind Reader.complete?

def Node.read? (text : String) : Option Node := (tokens? text).bind Node.ofTokens?

end Yang.Xml
