import Yang.SchemaId
import Yang.Value

/-!
# Keys of data nodes

A key tells a data node from its siblings and is one step of a resource identifier.
Most nodes are the only ones of their schema node and need no more than its identifier.
An entry of a list is selected by the values of its key leaves, and an entry of a
leaf-list by its own value.
-/

namespace Yang.Instance

/-- The value of one key leaf of a list entry. -/
structure KeyLeaf where
  id : SchemaId
  value : Value
deriving DecidableEq

def KeyLeaf.same (a b : KeyLeaf) : Bool := a.id == b.id && a.value.same b.value

inductive Key
  | plain (id : SchemaId)
  | listEntry (id : SchemaId) (leaves : List KeyLeaf)
  | leafListEntry (id : SchemaId) (value : Value)
deriving DecidableEq

namespace Key

def id : Key → SchemaId
  | .plain id => id
  | .listEntry id _ => id
  | .leafListEntry id _ => id

/-- No key may follow: an entry of a leaf-list holds no nodes. -/
def isTerminal : Key → Bool
  | .leafListEntry _ _ => true
  | _ => false

/-- How a key is written: predicates on the values follow the name. -/
def text : Key → String
  | .plain id => id.name
  | .listEntry id leaves =>
    id.name ++ String.join (leaves.map fun l => s!"[{l.id.name}='{l.value.literal}']")
  | .leafListEntry id value => s!"{id.name}[.='{value.literal}']"

def sameLeaves : List KeyLeaf → List KeyLeaf → Bool
  | [], [] => true
  | a :: as, b :: bs => a.same b && sameLeaves as bs
  | _, _ => false

/-- The two are of one form and select the same node. Values count as numbers
here, so keys that differ in their text may be the same. -/
def same : Key → Key → Bool
  | .plain a, .plain b => a == b
  | .listEntry a as, .listEntry b bs => a == b && sameLeaves as bs
  | .leafListEntry a v, .leafListEntry b w => a == b && v.same w
  | _, _ => false

end Key

end Yang.Instance
