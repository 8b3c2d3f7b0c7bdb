import Yang.Schema.Tree
import Yang.Uri

/-!
# Building a schema tree

A tree is built from statements, each of which names the node in which it stands. A
statement is checked and then either extends the tree or leaves it as it is. A data
node is entered into the context of the node below which it appears in instance data:
what stands in a case belongs to the node around the choice, and what stands in an
augment belongs to the target of the augment.
-/

namespace Yang.Schema

inductive Statement
  | module (name ns abbreviation : String) (revision : Option String)
  | importModule (module imported : NodeId)
  | container (parent : NodeId) (name : String)
  | list (parent : NodeId) (name : String) (keys : List String)
  | leaf (parent : NodeId) (name : String) (type : TypeSpec)
  | leafList (parent : NodeId) (name : String) (type : TypeSpec)
  | anydata (parent : NodeId) (name : String)
  | notification (module : NodeId) (name : String)
  | rpc (module : NodeId) (name : String)
  | input (rpc : NodeId)
  | output (rpc : NodeId)
  | choice (parent : NodeId) (name : String)
  | case (choice : NodeId) (name : String)
  | augment (module : NodeId) (name : String) (target : NodeId)

namespace Tree

def expectKind (t : Tree) (i : NodeId) (expected : NodeKind) : Except Error Unit := do
  let kind ← t.kindOf i
  if kind = expected then return ()
  else throw (.schema (.wrongKind (t.pathOf i) kind [expected]))

/-- Fail if a node cannot stand where it is put. -/
def checkPlacement (t : Tree) (parent : NodeId) (kind : NodeKind) : Except Error Unit := do
  let above ← t.kindOf parent
  if above.mayHold kind then return ()
  else throw (.schema (.misplaced kind (t.pathOf parent) above))

def checkNewChild (t : Tree) (parent : NodeId) (id : SchemaId) : Except Error Unit :=
  if ((t.node? parent).bind fun n => n.children.lookup id).isSome then
    .error (.schema (.childExists (t.pathOf parent) id.name))
  else .ok ()

def checkNewEntry (t : Tree) (holder : NodeId) (id : SchemaId) : Except Error Unit :=
  if (t.entry? holder id).isSome then
    .error (.schema (.dataNodeExists (t.pathOf holder) id.name))
  else .ok ()

def push (t : Tree) (n : Node) : Tree := ⟨t.nodes.push n⟩

def modify (t : Tree) (i : NodeId) (f : Node → Node) : Tree := ⟨t.nodes.modify i f⟩

def enter (t : Tree) (holder : NodeId) (id : SchemaId) (e : ContextEntry) : Tree :=
  t.modify holder fun n => { n with context := n.context ++ [(id, e)] }

/-- Append a node as a child of its parent. -/
def attach (t : Tree) (parent : NodeId) (id : SchemaId) (role : Role) : Tree :=
  let child := t.size
  (t.modify parent fun n => { n with children := n.children ++ [(id, child)] }).push
    ⟨id, role, some parent, [], []⟩

/-- The identifier of a node of a given name in a parent: its namespace is that
of the module in which the parent is written. -/
def childId (t : Tree) (parent : NodeId) (name : String) : SchemaId :=
  ⟨name, t.ns (t.moduleOf parent)⟩

/-- The context entry of the next node below a holder. -/
def nextEntry (t : Tree) (holder : NodeId) (switch : Option NodeId) : ContextEntry :=
  ⟨t.size, switch, switch.isSome && t.kind? holder == some .anydata⟩

/-- Add a node below a parent. A node that appears in instance data is also
entered in the context of its holder, where its name has to be free. -/
def addNode (t : Tree) (parent : NodeId) (name : String) (role : Role) :
    Except Error Tree := do
  Name.checkIdentifier name
  t.checkPlacement parent role.kind
  let id := t.childId parent name
  t.checkNewChild parent id
  if role.kind.isData then
    let (holder, switch) := t.holderOf parent
    t.checkNewEntry holder id
    return (t.enter holder id (t.nextEntry holder switch)).attach parent id role
  else
    return t.attach parent id role

/-- Add a node that only stands in nodes of one kind. -/
def addNodeIn (t : Tree) (expected : NodeKind) (parent : NodeId) (name : String)
    (role : Role) : Except Error Tree := do
  t.expectKind parent expected
  t.addNode parent name role

def addModule (t : Tree) (name ns abbreviation : String) (revision : Option String) :
    Except Error Tree := do
  Name.checkIdentifier name
  Name.checkIdentifier abbreviation
  match Uri.check ns with
  | .error fault => throw (.uri fault)
  | .ok () => pure ()
  let revision ← revision.mapM Revision.validate
  if t.modules.any fun i => t.name i == name && t.revision? i == revision then
    throw (.schema (.moduleDefined name revision))
  return t.push ⟨⟨name, ns⟩, .module ⟨abbreviation, revision, []⟩, none, [], []⟩

def addImport (t : Tree) (module imported : NodeId) : Except Error Tree := do
  t.expectKind imported .module
  if module = imported then
    throw (.schema (.selfImport (t.name module)))
  t.expectKind module .module
  return t.modify module fun n => { n with role := n.role.withImport imported }

def addAugment (t : Tree) (module : NodeId) (name : String) (target : NodeId) :
    Except Error Tree := do
  t.expectKind module .module
  let kind ← t.kindOf target
  if !kind.isAugmentable then
    throw (.schema (.badTarget (t.pathOf target) kind))
  t.addNode module name (.augment target)

/-- Extend a tree by a statement. The node of the statement is the last one, and
earlier nodes keep their numbers. -/
def add (t : Tree) : Statement → Except Error Tree
  | .module name ns abbreviation revision => t.addModule name ns abbreviation revision
  | .importModule module imported => t.addImport module imported
  | .container parent name => t.addNode parent name .container
  | .list parent name keys => t.addNode parent name (.list keys)
  | .leaf parent name type => t.addNode parent name (.leaf type)
  | .leafList parent name type => t.addNode parent name (.leafList type)
  | .anydata parent name => t.addNode parent name .anydata
  | .notification module name => t.addNodeIn .module module name .notification
  | .rpc module name => t.addNodeIn .module module name .rpc
  | .input rpc => t.addNodeIn .rpc rpc "input" .input
  | .output rpc => t.addNodeIn .rpc rpc "output" .output
  | .choice parent name => t.addNode parent name .choice
  | .case choice name => t.addNodeIn .choice choice name .case
  | .augment module name target => t.addAugment module name target

def holdsLeaf (t : Tree) (list : Node) (name : String) : Bool :=
  list.children.any fun (_, child) => t.kind? child == some .leaf && t.name child == name

/-- Fail if a list names a key that is not one of its leaves. -/
def checkKeysOf (t : Tree) (n : Node) : Except Error Unit :=
  match n.keys.find? fun key => !t.holdsLeaf n key with
  | some key => .error (.schema (.missingKey n.id.name key))
  | none => .ok ()

/-- Fail if some list names a key that is not one of its leaves. Keys are
checked at the end because the leaves of a list come after it. A tree that
passes is complete. -/
def checkKeys (t : Tree) : Except Error Unit := t.nodes.toList.forM t.checkKeysOf

/-- The complete tree of a sequence of statements, of which none may fail. -/
def ofStatements (statements : List Statement) : Except Error Tree := do
  let t ← statements.foldlM add {}
  t.checkKeys
  return t

end Tree

end Yang.Schema
