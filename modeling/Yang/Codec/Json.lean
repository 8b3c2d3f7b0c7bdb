import Yang.Codec.Context
import Yang.Json.Printer

/-!
# Data as JSON

A data node is a member of the object of its parent. The name of a member is qualified
by the module at the top level, and below where the namespace is not that of the parent.
Entries of lists and leaf-lists are the items of one array; a leaf of type `empty` is an
array that holds only null; long numbers are strings. On reading a qualified name is
taken wherever it stands.
-/

namespace Yang.Codec.Json

open Schema Instance Yang.Json

/-- The literal that a JSON value writes for a leaf. -/
def literal : Json.Value → Except Error String
  | .string s => .ok s
  | .number n => .ok n.text
  | .boolean b => .ok (if b then "true" else "false")
  | .array [.null] => .ok ""
  | v => .error (.decode (.notLeafValue v.compact))

/-- The namespace and the name for which the name of a member stands, below a
node of a namespace or at the top level. A name without module takes the
namespace of the parent, which the top level does not have. -/
def memberId (c : Context) (parentNs : Option String) (member : String) :
    Except Error SchemaId :=
  match Text.cutText? ":" member with
  | some (module, name) =>
    match c.moduleByName? module with
    | some root => .ok ⟨name, c.tree.ns root⟩
    | none => .error (.decode (.unknownModule member))
  | none =>
    match parentNs with
    | some ns => .ok ⟨member, ns⟩
    | none => .error (.decode (.unqualified member))

def schemaNode (c : Context) (parent : NodeId) (member : String) (id : SchemaId) :
    Except Error NodeId :=
  match c.tree.dataChild? parent id.name (some id.ns) with
  | some e => .ok e.node
  | none => .error (.decode (.unknownMember member (c.tree.pathOf parent)))

def leafNode (c : Context) (i : NodeId) (v : Json.Value) : Except Error DataNode := do
  c.valueNode i (← literal v)

mutual

/-- The data node that an object writes, at a depth. The object counts as a
level even before its members are read. -/
def decodeInner (c : Context) (i : NodeId) (ns : String) (depth : Nat) :
    Json.Value → Except Error DataNode
  | .object members => do
    c.limits.check .dataDepth (depth + 1)
    let children ← decodeMembers c i (some ns) (depth + 1) members
    c.innerNode i children
  | _ => .error (.decode (.notObject (c.tree.pathOf i)))

def decodeEntries (c : Context) (i : NodeId) (ns : String) (depth : Nat) :
    List Json.Value → Except Error (List DataNode)
  | [] => .ok []
  | v :: vs => do
    let first ← decodeInner c i ns depth v
    let others ← decodeEntries c i ns depth vs
    return first :: others

/-- The data nodes that members write, below a node of a namespace or at the top
level. -/
def decodeMembers (c : Context) (parent : NodeId) (parentNs : Option String) (depth : Nat) :
    List (String × Json.Value) → Except Error (List DataNode)
  | [] => .ok []
  | (member, v) :: rest => do
    let id ← memberId c parentNs member
    let i ← schemaNode c parent member id
    let nodes ←
      match c.tree.kind? i with
      | some .leaf => do pure [← leafNode c i v]
      | some .leafList =>
        match v with
        | .array items => items.mapM (leafNode c i)
        | _ => throw (.decode (.notArray member))
      | some .list =>
        match v with
        | .array items => decodeEntries c i id.ns depth items
        | _ => throw (.decode (.notArray member))
      | _ => do pure [← decodeInner c i id.ns depth v]
    let others ← decodeMembers c parent parentNs depth rest
    return nodes ++ others

end

/-- The module that qualifies the name of a member at the top level. -/
def topModule (c : Context) (member : String) : Except Error NodeId :=
  match Text.cutText? ":" member with
  | none => .error (.decode (.unqualified member))
  | some (module, _) =>
    match c.moduleByName? module with
    | some root => .ok root
    | none => .error (.decode (.unknownModule member))

def decodeTop (c : Context) (member : String) (v : Json.Value) :
    Except Error (List DataNode) := do
  let root ← topModule c member
  c.limits.check .dataDepth 1
  decodeMembers c root none 1 [(member, v)]

def decodeValue (c : Context) : Json.Value → Except Error (List DataNode)
  | .object members => do
    let nodes ← members.mapM fun (member, v) => decodeTop c member v
    return nodes.flatten
  | _ => .error (.decode .notTopObject)

def decode (c : Context) (text : String) : Except Error (List DataNode) :=
  match Value.read? text with
  | some v => decodeValue c v
  | none => .error .malformedJson

/-- The name of the member of a node below a node of a namespace. -/
def memberName (c : Context) (parentNs : Option String) (id : SchemaId) :
    Except Error String :=
  if parentNs = some id.ns then .ok id.name
  else do
    let module ← c.moduleNameFor id.ns
    return module ++ ":" ++ id.name

/-- Put the value of a node into members. Entries are gathered in one array, and
other nodes are the only ones of their name. The array is known by its form
alone. -/
def putNode (members : List (String × Json.Value)) (key : Key) (member : String)
    (v : Json.Value) : Except Error (List (String × Json.Value)) :=
  match key with
  | .plain _ =>
    if (members.lookup member).isSome then .error (.encode (.repeatedMember member))
    else .ok (putMember member v members)
  | _ =>
    match members.lookup member with
    | none => .ok (putMember member (.array [v]) members)
    | some (.array items) => .ok (putMember member (.array (items ++ [v])) members)
    | some _ => .error (.encode (.mixedMember member))

mutual

/-- The JSON form of a node, which stands at a depth. Only objects count as
levels, so leaves never exceed the limit. -/
def encodeNode (c : Context) (depth : Nat) : DataNode → Except Error Json.Value
  | .leaf _ value => .ok value.json
  | .inner key children => do
    c.limits.check .dataDepth (depth + 1)
    let members ← encodeNodes c (some key.id.ns) (depth + 1) [] children
    return .object members

def encodeNodes (c : Context) (parentNs : Option String) (depth : Nat)
    (members : List (String × Json.Value)) :
    List DataNode → Except Error (List (String × Json.Value))
  | [] => .ok members
  | n :: ns => do
    let member ← memberName c parentNs n.id
    let v ← encodeNode c depth n
    let next ← putNode members n.key member v
    encodeNodes c parentNs depth next ns

end

def encodeValue (c : Context) (nodes : List DataNode) : Except Error Json.Value := do
  c.limits.check .dataDepth 1
  let members ← encodeNodes c none 1 [] nodes
  return .object members

/-- The text of data, on one line or indented. -/
def encode (c : Context) (indented : Bool) (nodes : List DataNode) : Except Error String := do
  let v ← encodeValue c nodes
  return if indented then v.pretty else v.compact

end Yang.Codec.Json
