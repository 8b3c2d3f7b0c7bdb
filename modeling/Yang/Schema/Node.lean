import Yang.Schema.Kind
import Yang.SchemaId
import Yang.TypeSpec

/-!
# Schema nodes

A node is a compiled statement. It knows its lexical children and, apart from them, its
context: the data nodes that appear directly below it in instance data. A context
differs from the children where a case or an augment puts a node into another place
than the one where it is written.
-/

namespace Yang.Schema

/-- The number of a node in its tree. Nodes are numbered in the order of their
statements, so a parent comes before its children. -/
abbrev NodeId := Nat

/-- A data node as instance data meets it below another node. Choices, cases and
augments leave no trace in instance data but the switch of an entry. -/
structure ContextEntry where
  node : NodeId
  /-- The case or augment through which the node came here. -/
  switch : Option NodeId := none
  /-- The node stands below an anydata node. -/
  underAnydata : Bool := false
deriving DecidableEq, Repr

/-- The entry under which a node is registered below an anydata node. -/
def ContextEntry.forAnydata (e : ContextEntry) : ContextEntry := { e with underAnydata := true }

structure Header where
  /-- The short name by which the module refers to itself. -/
  abbreviation : String
  revision : Option String
  imports : List NodeId
deriving DecidableEq, Repr

/-- What a statement says besides its name. -/
inductive Role
  | module (header : Header)
  | container
  | list (keys : List String)
  | leaf (type : TypeSpec)
  | leafList (type : TypeSpec)
  | rpc
  | input
  | output
  | notification
  | anydata
  | augment (target : NodeId)
  | choice
  | case

def Role.kind : Role → NodeKind
  | .module _ => .module
  | .container => .container
  | .list _ => .list
  | .leaf _ => .leaf
  | .leafList _ => .leafList
  | .rpc => .rpc
  | .input => .input
  | .output => .output
  | .notification => .notification
  | .anydata => .anydata
  | .augment _ => .augment
  | .choice => .choice
  | .case => .case

/-- Add an import to the head of a module, unless it is there. -/
def Role.withImport (role : Role) (imported : NodeId) : Role :=
  match role with
  | .module h =>
    .module (if imported ∈ h.imports then h else { h with imports := h.imports ++ [imported] })
  | other => other

structure Node where
  id : SchemaId
  role : Role
  /-- The node in which the statement is written; modules have none. -/
  parent : Option NodeId
  /-- The nodes written in this one, in order. -/
  children : List (SchemaId × NodeId) := []
  /-- The data nodes directly below this one, in the order in which they were added. -/
  context : List (SchemaId × ContextEntry) := []

namespace Node

def kind (n : Node) : NodeKind := n.role.kind

def type? (n : Node) : Option TypeSpec :=
  match n.role with
  | .leaf type => some type
  | .leafList type => some type
  | _ => none

def keys (n : Node) : List String :=
  match n.role with
  | .list keys => keys
  | _ => []

def header? (n : Node) : Option Header :=
  match n.role with
  | .module header => some header
  | _ => none

def target? (n : Node) : Option NodeId :=
  match n.role with
  | .augment target => some target
  | _ => none

end Node

end Yang.Schema
