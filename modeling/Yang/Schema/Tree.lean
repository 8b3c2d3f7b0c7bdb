import Yang.Revision
import Yang.Schema.Node

/-!
# Schema trees

All nodes of a schema stand in one array, in the order in which they were added, and
refer to each other by their numbers. A node comes after the node in which it is written
and an augment after its target. The functions that climb follow only such references,
to smaller numbers, and so come to an end in every tree.
-/

namespace Yang.Schema

structure Tree where
  nodes : Array Node := #[]

namespace Tree

def node? (t : Tree) (i : NodeId) : Option Node := t.nodes[i]?

def size (t : Tree) : Nat := t.nodes.size

def name (t : Tree) (i : NodeId) : String := ((t.node? i).map (·.id.name)).getD ""

def ns (t : Tree) (i : NodeId) : String := ((t.node? i).map (·.id.ns)).getD ""

def kind? (t : Tree) (i : NodeId) : Option NodeKind := (t.node? i).map Node.kind

/-- The kind of a node that has to exist. -/
def kindOf (t : Tree) (i : NodeId) : Except Error NodeKind :=
  match t.kind? i with
  | some k => .ok k
  | none => .error (.schema (.unknownNode i))

def parent? (t : Tree) (i : NodeId) : Option NodeId := (t.node? i).bind Node.parent

def modules (t : Tree) : List NodeId :=
  (List.range t.size).filter fun i => t.kind? i == some .module

def header? (t : Tree) (i : NodeId) : Option Header := (t.node? i).bind Node.header?

def revision? (t : Tree) (i : NodeId) : Option String := (t.header? i).bind Header.revision

def imports (t : Tree) (i : NodeId) : List NodeId := ((t.header? i).map Header.imports).getD []

def modulesNamed (t : Tree) (name : String) : List NodeId :=
  t.modules.filter fun i => t.name i == name

/-- The module of a name and a revision, or its newest revision if none is asked
for. A module without revision is found in the second way only. -/
def findModule? (t : Tree) (name : String) (revision : Option String) : Option NodeId :=
  match revision with
  | some r => (t.modulesNamed name).find? fun i => t.revision? i == some r
  | none => Revision.newest? t.revision? (t.modulesNamed name)

/-- The first module with a namespace. -/
def moduleByNamespace? (t : Tree) (ns : String) : Option NodeId :=
  t.modules.find? fun i => t.ns i == ns

/-- A node, the node in which it is written and so on up to the module. -/
def lineage (t : Tree) (i : NodeId) : List NodeId :=
  match t.parent? i with
  | some p => if p < i then i :: lineage t p else [i]
  | none => [i]
termination_by i

/-- The module in which a node is written. -/
def moduleOf (t : Tree) (i : NodeId) : NodeId :=
  match t.parent? i with
  | some p => if p < i then moduleOf t p else i
  | none => i
termination_by i

/-- The names from the module down to a node. -/
def pathOf (t : Tree) (i : NodeId) : String :=
  "/" ++ "/".intercalate ((t.lineage i).reverse.map t.name)

/-- Where to look for the owner of the context entries of what is written in a
node that does not appear in instance data. -/
def redirect? (t : Tree) (i : NodeId) : Option NodeId :=
  match (t.node? i).map Node.role with
  | some .choice | some .case => t.parent? i
  | some (.augment target) => some target
  | _ => none

/-- The node is one that a context entry names as its switch. -/
def isSwitch (t : Tree) (i : NodeId) : Bool :=
  t.kind? i == some .case || t.kind? i == some .augment

/-- The node that owns the context entries of what is written in a node, and the
first case or augment on the way to it. Each step of the search has to go down
in number, so it comes to an end in any tree. -/
def holderOf (t : Tree) (i : NodeId) : NodeId × Option NodeId :=
  match t.redirect? i with
  | some next =>
    if next < i then
      let (holder, switch) := holderOf t next
      (holder, if t.isSwitch i then some i else switch)
    else (i, none)
  | none => (i, none)
termination_by i

def context (t : Tree) (i : NodeId) : List (SchemaId × ContextEntry) :=
  ((t.node? i).map Node.context).getD []

def entries (t : Tree) (i : NodeId) : List ContextEntry := (t.context i).map Prod.snd

def entry? (t : Tree) (i : NodeId) (id : SchemaId) : Option ContextEntry :=
  (t.context i).lookup id

/-- The first context entry of a node for a name, in a given namespace if there
is one. -/
def dataChild? (t : Tree) (i : NodeId) (name : String) (ns : Option String) :
    Option ContextEntry :=
  (t.entries i).find? fun e => t.name e.node == name && ns.all (t.ns e.node == ·)

end Tree

end Yang.Schema
