import Yang.Model
import Yang.Schema.Resolution
import Yang.Table

/-!
# The registry

A registry holds the models that are registered over one schema tree. It indexes the
models by id, their modules by qualified name together with the model that owns them,
and the nodes that may appear below anydata nodes. A registration that fails leaves all
of this as it was.
-/

namespace Yang

open Schema

structure IndexedModule where
  module : Module
  /-- The id of the model to which the module belongs. -/
  owner : String
deriving DecidableEq, Repr

/-- The models registered over a schema tree. -/
structure Registry where
  tree : Tree
  limits : Limits := {}
  /-- The models by id. -/
  models : List (String × Model) := []
  /-- The modules of all models by qualified name. -/
  index : List (String × IndexedModule) := []
  /-- The entries registered below anydata nodes. -/
  anydata : List (NodeId × List ContextEntry) := []

namespace Registry

def model? (r : Registry) (id : String) : Option Model := r.models.lookup id

/-- All models, ordered by id. -/
def sortedModels (r : Registry) : List Model :=
  (r.models.map Prod.snd).mergeSort fun a b => decide (a.id ≤ b.id)

def qualified? (r : Registry) (name : String) : Option Module :=
  (r.index.lookup name).map IndexedModule.module

def indexed (r : Registry) : List Module := r.index.map fun (_, m) => m.module

/-- The module with an identifier. An identifier without revision also stands
for the newest revision, unless it is the qualified name of a module that has
none. -/
def module? (r : Registry) (id : ModuleId) : Option Module :=
  match r.qualified? id.text with
  | some m => some m
  | none =>
    if id.revision.isSome then none
    else Revision.newest? (·.id.revision) (r.indexed.filter fun m => m.id.name == id.name)

def moduleIds (r : Registry) : List ModuleId := (r.indexed.map Module.id).mergeSort ModuleId.le

/-- The module of the schema tree that a registration names. -/
def locate (r : Registry) (model : String) (id : ModuleId) : Except Error Module :=
  match r.tree.findModule? id.name id.revision with
  | some root => .ok ⟨⟨id.name, r.tree.revision? root⟩, r.tree.ns root, root⟩
  | none => .error (.model (.unknownModule model id.text))

/-- Add a module to others unless one of them has its identifier. -/
def addOnce (modules : List Module) (m : Module) : List Module :=
  if modules.any fun known => known.id == m.id then modules else modules ++ [m]

def locateAll (r : Registry) (model : String) (ids : List ModuleId) :
    Except Error (List Module) :=
  ids.foldlM (fun modules id => return addOnce modules (← r.locate model id)) []

/-- Enter modules of a model into an index one after the other. At a module that
is taken, the keys that were entered before it are taken out again. -/
def enterAll (owner : String) (entered : List String) (index : List (String × IndexedModule)) :
    List Module → Except Error Unit × List (String × IndexedModule)
  | [] => (.ok (), index)
  | m :: rest =>
    match index.lookup m.id.text with
    | some known =>
      (.error (.model (.moduleTaken m.id.text known.owner)),
        entered.foldl (fun index key => Table.erase key index) index)
    | none =>
      enterAll owner (entered ++ [m.id.text]) (index ++ [(m.id.text, ⟨m, owner⟩)]) rest

/-- The call that registers a model, and the registry that it leaves behind,
also when it fails: the id of the model must be legal and free, and its modules
must be in the schema tree and belong to no other model. -/
def registering (r : Registry) (p : Registration) : Except Error Model × Registry :=
  if !Name.isModelId p.model then (.error (.model (.badId p.model)), r)
  else if p.modules.isEmpty then (.error (.model (.noModules p.model)), r)
  else
    match r.locateAll p.model p.modules with
    | .error e => (.error e, r)
    | .ok modules =>
      if (r.model? p.model).isSome then (.error (.duplicateModel p.model), r)
      else
        match enterAll p.model [] r.index modules with
        | (.error e, index) => (.error e, { r with index := index })
        | (.ok (), index) =>
          let model : Model := ⟨p.model, modules⟩
          (.ok model, { r with models := r.models ++ [(p.model, model)], index := index })

/-- Register a model, and go on with the registry after it. -/
def register (r : Registry) (p : Registration) : Except Error (Model × Registry) :=
  match r.registering p with
  | (.ok model, after) => .ok (model, after)
  | (.error e, _) => .error e

def belongsTo (model : Model) (key : String) (m : IndexedModule) : Bool :=
  m.owner == model.id && model.modules.any fun module => module.id.text == key

/-- The node is written in one of the modules of a model. -/
def isWrittenIn (r : Registry) (model : Model) (i : NodeId) : Bool :=
  model.modules.any fun module => module.root == r.tree.moduleOf i

/-- Remove a model, its modules, and what is registered below its anydata nodes.
There is nothing to do for an unknown model. Entries of its nodes below the
anydata nodes of other models stay. -/
def unregister (r : Registry) (id : String) : Option Model × Registry :=
  match r.model? id with
  | none => (none, r)
  | some model =>
    (some model,
      { r with
        models := r.models.filter fun (key, _) => key != id
        index := r.index.filter fun (key, m) => !belongsTo model key m
        anydata := r.anydata.filter fun (i, _) => !r.isWrittenIn model i })

def members (r : Registry) : Members := fun i => (r.anydata.lookup i).getD []

/-- Resolve a path from its module, which has to be registered. The tree does
the rest, with what is registered below anydata nodes. -/
def resolve (r : Registry) (path : Path) : Except Error ContextEntry :=
  let id : ModuleId := ⟨path.module, path.revision⟩
  match r.module? id with
  | none => .error (.moduleNotRegistered id.text)
  | some m => r.tree.resolve r.members r.limits path m.root

/-- Add an entry to others unless one of them is for the same node. -/
def addEntry (entries : List ContextEntry) (e : ContextEntry) : List ContextEntry :=
  if entries.any fun known => known.node == e.node then entries else entries ++ [e]

/-- Register the nodes at some paths below the anydata node at a path. All paths
are resolved first, so a call that fails has changed nothing. -/
def registerAnydata (r : Registry) (location : Path) (paths : List Path) :
    Except Error Registry := do
  let target ← r.resolve location
  let kind ← r.tree.kindOf target.node
  if kind ≠ .anydata then
    throw (.schema (.notAnydata location.text kind))
  let entries ← paths.mapM fun p => return (← r.resolve p).forAnydata
  let all := entries.foldl addEntry (r.members target.node)
  return { r with anydata := Table.put target.node all r.anydata }

end Registry

end Yang
