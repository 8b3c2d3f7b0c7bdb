import Yang.Error
import Yang.Instance.ResourceId

/-!
# Instance data

A data node has a key and either children or a value. The data that codecs exchange is
a forest of data nodes below a resource, which is the root unless it is named.
-/

namespace Yang.Instance

inductive DataNode
  | inner (key : Key) (children : List DataNode)
  | leaf (key : Key) (value : Value)

namespace DataNode

def key : DataNode → Key
  | .inner key _ => key
  | .leaf key _ => key

def id (n : DataNode) : SchemaId := n.key.id

/-- The children of a node; a leaf has none. -/
def children : DataNode → List DataNode
  | .inner _ children => children
  | .leaf _ _ => []

def value? : DataNode → Option Value
  | .inner _ _ => none
  | .leaf _ value => some value

def isLeaf (n : DataNode) : Bool := n.value?.isSome

def addChild (n child : DataNode) : Except Error DataNode :=
  match n with
  | .inner key children => .ok (.inner key (children ++ [child]))
  | .leaf key _ => .error (.encode (.childOfLeaf key.id.name child.id.name))

/-- The first child of a name. -/
def child? (n : DataNode) (name : String) : Option DataNode :=
  n.children.find? fun c => c.id.name == name

mutual

/-- How many nodes the longest way down from a node passes, the node included. -/
def depth : DataNode → Nat
  | .inner _ children => depthOfAll children + 1
  | .leaf _ _ => 1

def depthOfAll : List DataNode → Nat
  | [] => 0
  | n :: ns => max n.depth (depthOfAll ns)

end

mutual

/-- The two have the same keys, values and children in the same order. -/
def same : DataNode → DataNode → Bool
  | .inner a as, .inner b bs => a.same b && sameAll as bs
  | .leaf a v, .leaf b w => a.same b && v.same w
  | _, _ => false

def sameAll : List DataNode → List DataNode → Bool
  | [], [] => true
  | a :: as, b :: bs => a.same b && sameAll as bs
  | _, _ => false

end

mutual

/-- Equality is decided node by node. It cannot be derived, since the children
stand in a list. -/
def decEq : (a b : DataNode) → Decidable (a = b)
  | .inner k ms, .inner l ns =>
    have : Decidable (ms = ns) := decEqAll ms ns
    decidable_of_iff (k = l ∧ ms = ns) (by simp)
  | .leaf k v, .leaf l w => decidable_of_iff (k = l ∧ v = w) (by simp)
  | .inner _ _, .leaf _ _ => isFalse (by simp)
  | .leaf _ _, .inner _ _ => isFalse (by simp)

def decEqAll : (ms ns : List DataNode) → Decidable (ms = ns)
  | [], [] => isTrue rfl
  | m :: ms, n :: ns =>
    have : Decidable (m = n) := decEq m n
    have : Decidable (ms = ns) := decEqAll ms ns
    decidable_of_iff (m = n ∧ ms = ns) (by simp)
  | [], _ :: _ => isFalse (by simp)
  | _ :: _, [] => isFalse (by simp)

end

instance : DecidableEq DataNode := decEq

end DataNode

/-- Data nodes below a resource. -/
structure ResourceData where
  resource : Option ResourceId := none
  nodes : List DataNode := []
deriving DecidableEq

namespace ResourceData

def addNode (d : ResourceData) (n : DataNode) : ResourceData :=
  { d with nodes := d.nodes ++ [n] }

def same (d e : ResourceData) : Bool :=
  (match d.resource, e.resource with
    | none, none => true
    | some r, some s => r.same s
    | _, _ => false) &&
  DataNode.sameAll d.nodes e.nodes

end ResourceData

end Yang.Instance
