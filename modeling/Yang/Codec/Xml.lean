import Yang.Codec.Context
import Yang.Xml.Markup
import Yang.Xml.Node

/-!
# Data as XML

A data node is an element in the namespace of its module. A document wraps the nodes at
the top level in a `data` element of its own namespace; on reading the root may also be
a node itself. An element declares its namespace where it is not that of the element
around it, and at the top level always. The literal of a leaf is the text at the front
of the element, without blanks around it unless the type is `string`.
-/

namespace Yang.Codec.Xml

open Schema Instance Yang.Xml

def wrapperNamespace : String := "urn:ietf:params:xml:ns:netconf:base:1.0"

def wrapperName : String := "data"

/-- The literals of a leaf keep the blanks around them. -/
def keepsBlanks (c : Context) (i : NodeId) : Bool :=
  (c.type? i).any fun type => type.effective == .string

/-- The literal that the children of an element write for a leaf. It is the text
in front only: what follows a comment does not count. -/
def leafText (c : Context) (i : NodeId) (children : List Xml.Node) : String :=
  let text := Xml.Node.leadingText children
  if keepsBlanks c i then text else Text.trim text

mutual

/-- The data node that an element writes, at a depth. A node of another form
writes none, so texts and comments between elements are passed over. -/
def decodeNode (c : Context) (parent : NodeId) (depth : Nat) :
    Xml.Node → Except Error (Option DataNode)
  | .element ns name children => do
    c.limits.check .dataDepth depth
    match c.tree.dataChild? parent name ns with
    | none => throw (.decode (.unknownElement name (c.tree.pathOf parent)))
    | some e =>
      if ((c.tree.kind? e.node).map NodeKind.isTerminal).getD false then
        return some (← c.valueNode e.node (leafText c e.node children))
      else
        let nodes ← decodeNodes c e.node (depth + 1) children
        return some (← c.innerNode e.node nodes)
  | _ => .ok none

def decodeNodes (c : Context) (parent : NodeId) (depth : Nat) :
    List Xml.Node → Except Error (List DataNode)
  | [] => .ok []
  | n :: ns => do
    let first ← decodeNode c parent depth n
    let others ← decodeNodes c parent depth ns
    return first.toList ++ others

end

def decodeTop (c : Context) : Xml.Node → Except Error (Option DataNode)
  | .element ns name children =>
    match ns with
    | none => .error (.decode (.noNamespace name))
    | some uri =>
      match c.moduleByNamespace? uri with
      | none => .error (.decode (.unknownNamespace uri))
      | some root => decodeNode c root 1 (.element ns name children)
  | _ => .ok none

/-- The elements at the top level: the root, or what it wraps. The root is a
wrapper if it has the name of one and its namespace is not that of a module. -/
def topElements (c : Context) : Xml.Node → List Xml.Node
  | .element ns name children =>
    if name = wrapperName ∧ (ns.bind c.moduleByNamespace?).isNone then
      children.filter Xml.Node.isElement
    else [.element ns name children]
  | _ => []

def decodeRoot (c : Context) (root : Xml.Node) : Except Error (List DataNode) := do
  let nodes ← (topElements c root).mapM (decodeTop c)
  return nodes.flatMap Option.toList

def decode (c : Context) (text : String) : Except Error (List DataNode) :=
  match Xml.Node.read? text with
  | some root => decodeRoot c root
  | none => .error .malformedXml

/-- The namespace that an element declares inside another one. -/
def declared (parentNs : Option String) (ns : String) : Option String :=
  if parentNs = some ns then none else some ns

mutual

/-- The element of a node, which stands at a depth. The namespace is declared
where it differs from that of the parent; elements have no prefixes. -/
def encodeNode (c : Context) (parentNs : Option String) (depth : Nat) :
    DataNode → Except Error Markup
  | .leaf key value => do
    c.limits.check .dataDepth depth
    let ns := declared parentNs key.id.ns
    if value = .empty then return .void key.id.name ns
    else return .element key.id.name ns [.text value.literal]
  | .inner key children => do
    c.limits.check .dataDepth depth
    let elements ← encodeNodes c (some key.id.ns) (depth + 1) children
    return .element key.id.name (declared parentNs key.id.ns) elements

def encodeNodes (c : Context) (parentNs : Option String) (depth : Nat) :
    List DataNode → Except Error (List Markup)
  | [] => .ok []
  | n :: ns => do
    let first ← encodeNode c parentNs depth n
    let others ← encodeNodes c parentNs depth ns
    return first :: others

end

def encodeDocument (c : Context) (nodes : List DataNode) : Except Error Markup := do
  let elements ← encodeNodes c none 1 nodes
  return .element wrapperName (some wrapperNamespace) elements

def encode (c : Context) (nodes : List DataNode) : Except Error String := do
  let document ← encodeDocument c nodes
  return document.written

end Yang.Codec.Xml
