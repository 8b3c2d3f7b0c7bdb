/-!
# Kinds of schema nodes

The thirteen statements that become nodes of a schema tree. Data nodes appear in
instance data; modules, augments, choices and cases do not. Leaves and leaf-lists
carry a value instead of children.
-/

namespace Yang

/-- The statement from which a schema node was compiled. -/
inductive NodeKind
  | module
  | container
  | list
  | leaf
  | leafList
  | rpc
  | input
  | output
  | notification
  | anydata
  | augment
  | choice
  | case
deriving DecidableEq, Repr

namespace NodeKind

def all : List NodeKind :=
  [.module, .container, .list, .leaf, .leafList, .rpc, .input, .output, .notification,
    .anydata, .augment, .choice, .case]

/-- Nodes of this kind appear in instance data. -/
def isData : NodeKind → Bool
  | .module | .augment | .choice | .case => false
  | _ => true

/-- Nodes of this kind carry a value. -/
def isTerminal : NodeKind → Bool
  | .leaf | .leafList => true
  | _ => false

def keyword : NodeKind → String
  | .module => "module"
  | .container => "container"
  | .list => "list"
  | .leaf => "leaf"
  | .leafList => "leaf-list"
  | .rpc => "rpc"
  | .input => "input"
  | .output => "output"
  | .notification => "notification"
  | .anydata => "anydata"
  | .augment => "augment"
  | .choice => "choice"
  | .case => "case"

/-- The title of the kind, by which messages list the kinds that were expected. -/
def title : NodeKind → String
  | .module => "Module"
  | .container => "Container"
  | .list => "List"
  | .leaf => "Leaf"
  | .leafList => "LeafList"
  | .rpc => "Rpc"
  | .input => "Input"
  | .output => "Output"
  | .notification => "Notification"
  | .anydata => "Anydata"
  | .augment => "Augment"
  | .choice => "Choice"
  | .case => "Case"

/-- A statement of the second kind may stand directly in one of the first.
Nothing stands in a leaf or, as far as its own module goes, in an anydata node.
A choice holds cases and an rpc its input and output, which stand nowhere else;
rpcs, notifications and augments stand in modules. -/
def mayHold (parent child : NodeKind) : Bool :=
  if parent.isTerminal then false
  else
    match parent, child with
    | .choice, _ => child == .case
    | _, .case => false
    | .rpc, _ => child == .input || child == .output
    | _, .input | _, .output => false
    | .module, _ => true
    | _, .rpc | _, .notification | _, .augment => false
    | .anydata, _ => false
    | _, _ => true

/-- An augment can add to a node of this kind: a data node that holds other
nodes. -/
def isAugmentable (k : NodeKind) : Bool := k.isData && !k.isTerminal

end NodeKind

end Yang
