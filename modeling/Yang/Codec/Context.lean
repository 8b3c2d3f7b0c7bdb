import Yang.Instance.DataNode
import Yang.Schema.Tree
import Yang.Table

/-!
# The schema as codecs see it

Codecs find a module by its name or by its namespace. Of several revisions of a name the
newest counts; a namespace leads to the module that was entered last for it. The data
node of a literal or of decoded children gets the key that its schema node prescribes.
-/

namespace Yang.Codec

open Schema Instance

/-- A schema tree with tables of its modules, and the limits of codecs. The
tables are made once, from all modules of the tree. -/
structure Context where
  tree : Tree
  limits : Limits := {}
  byName : List (String × NodeId) := []
  byNamespace : List (String × NodeId) := []

namespace Context

/-- A module is to be entered in the tables: its name is not there yet or stands
for an older revision. -/
def isNews (c : Context) (module : NodeId) : Bool :=
  match c.byName.lookup (c.tree.name module) with
  | some known => Revision.newer (c.tree.revision? module) (c.tree.revision? known)
  | none => true

/-- Enter a module in both tables unless a newer revision of it is there. The
test looks at names only, also for the table of namespaces. -/
def enter (c : Context) (module : NodeId) : Context :=
  if c.isNews module then
    { c with
      byName := Table.put (c.tree.name module) module c.byName
      byNamespace := Table.put (c.tree.ns module) module c.byNamespace }
  else c

def ofTree (t : Tree) (limits : Limits) : Context :=
  t.modules.foldl enter { tree := t, limits := limits }

def moduleByName? (c : Context) (name : String) : Option NodeId := c.byName.lookup name

def moduleByNamespace? (c : Context) (ns : String) : Option NodeId := c.byNamespace.lookup ns

def moduleNameFor (c : Context) (ns : String) : Except Error String :=
  match c.moduleByNamespace? ns with
  | some module => .ok (c.tree.name module)
  | none => .error (.encode (.unknownNamespace ns))

def id (c : Context) (i : NodeId) : SchemaId := ⟨c.tree.name i, c.tree.ns i⟩

def type? (c : Context) (i : NodeId) : Option TypeSpec := (c.tree.node? i).bind Node.type?

def keys (c : Context) (i : NodeId) : List String := ((c.tree.node? i).map Node.keys).getD []

def leafValue (c : Context) (i : NodeId) (raw : String) : Except Error Value :=
  match c.type? i with
  | some type => type.read raw c.limits
  | none => .error (.decode (.noType (c.tree.pathOf i)))

/-- The key leaf of a name among the children of a list entry: the first child
of that name, which must be a leaf. The namespace of the child is not looked at. -/
def keyLeaf (c : Context) (list : NodeId) (children : List DataNode) (name : String) :
    Except Error KeyLeaf :=
  match children.find? fun child => child.id.name == name with
  | some (.leaf key value) => .ok ⟨key.id, value⟩
  | _ => .error (.decode (.missingKeyLeaf (c.tree.pathOf list) name))

/-- The key of a list entry: its key leaves in the order of the keys of the
list. -/
def listEntryKey (c : Context) (list : NodeId) (children : List DataNode) :
    Except Error Key := do
  c.limits.check .keyLeaves (c.keys list).length
  let leaves ← (c.keys list).mapM (c.keyLeaf list children)
  return .listEntry (c.id list) leaves

/-- The data node of a literal of a leaf or of an entry of a leaf-list. -/
def valueNode (c : Context) (i : NodeId) (raw : String) : Except Error DataNode := do
  let value ← c.leafValue i raw
  if c.tree.kind? i = some .leafList then return .leaf (.leafListEntry (c.id i) value) value
  else return .leaf (.plain (c.id i)) value

def innerNode (c : Context) (i : NodeId) (children : List DataNode) :
    Except Error DataNode := do
  if c.tree.kind? i = some .list then return .inner (← c.listEntryKey i children) children
  else return .inner (.plain (c.id i)) children

end Context

end Yang.Codec
