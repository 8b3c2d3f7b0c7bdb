import Yang.Instance.Key
import Yang.Limits

/-!
# Resource identifiers

A resource identifier is the sequence of keys that leads from the root of the data to a
node. It is put together by a builder, which has one pending key. A branch point
finishes the pending key and begins another, and a key leaf is added to the pending key,
which thereby becomes the key of a list entry. Nothing may follow an entry of a
leaf-list. A call that fails may have changed the builder before it failed, so a call
yields the next state of the builder in either case.
-/

namespace Yang.Instance

/-- The keys from the root of the data to a node. -/
structure ResourceId where
  keys : List Key := []
deriving DecidableEq

namespace ResourceId

/-- How an identifier is written; the root is a slash. -/
def text (r : ResourceId) : String :=
  if r.keys.isEmpty then "/" else String.join (r.keys.map fun k => "/" ++ k.text)

def sameKeys : List Key → List Key → Bool
  | [], [] => true
  | a :: as, b :: bs => a.same b && sameKeys as bs
  | _, _ => false

def same (r s : ResourceId) : Bool := sameKeys r.keys s.keys

/-- An identifier under construction. A key to which leaves may still be added
is pending; the finished keys are those that an identifier shows. -/
structure Builder where
  /-- The keys that are finished. -/
  keys : List Key := []
  pending : Option Key := none
  limits : Limits := {}
deriving DecidableEq

/-- A builder that goes on from an identifier. -/
def builder (r : ResourceId) : Builder := { keys := r.keys }

namespace Builder

/-- A call of a builder: it may fail, and it changes the state of the builder. A
call that fails leaves what it had changed before it failed. -/
abbrev Call (α : Type) := ExceptT Error (StateM Builder) α

def call {α : Type} (b : Builder) (c : Call α) : Except Error α × Builder := (c.run).run b

/-- Finish a key, unless the last one is terminal. -/
def place (k : Key) : Call Unit := do
  let b ← get
  if b.keys.getLast?.any Key.isTerminal then
    throw (.key (.afterLeafList k.text))
  set { b with keys := b.keys ++ [k] }

/-- Finish the pending key, which must not be terminal because something follows
it. -/
def settle : Call Unit := do
  let b ← get
  match b.pending with
  | none => return ()
  | some (.leafListEntry _ _) => throw (.key .leafListIsLast)
  | some k =>
    set { b with pending := none }
    place k

def branch (id : SchemaId) : Call Unit := do
  settle
  modify fun b => { b with pending := some (.plain id) }

def addKeyLeaf (leaf : KeyLeaf) : Call Unit := do
  let b ← get
  match b.pending with
  | some (.listEntry id leaves) =>
    b.limits.check .keyLeaves (leaves.length + 1)
    set { b with pending := some (.listEntry id (leaves ++ [leaf])) }
  | some (.plain id) => set { b with pending := some (.listEntry id [leaf]) }
  | some (.leafListEntry _ _) => throw (.key .leafListTakesNoKeyLeaf)
  | none => throw (.key (.keyLeafWithoutList leaf.id.name))

/-- The pending key is that of an entry of a leaf-list. -/
def isPendingTerminal (b : Builder) : Bool := b.pending.any Key.isTerminal

def branchLeafList (id : SchemaId) (value : Value) : Call Unit := do
  if (← get).isPendingTerminal then
    throw (.key .leafListAfterLeafList)
  settle
  modify fun b => { b with pending := some (.leafListEntry id value) }

def appendKeys (keys : List Key) : Call Unit := do
  settle
  keys.forM place

def append (r : ResourceId) : Call Unit := appendKeys r.keys

/-- Drop the last finished key. -/
def removeLast : Call Unit := do
  let b ← get
  if b.keys.isEmpty then
    throw (.key .nothingToRemove)
  set { b with keys := b.keys.dropLast }

/-- Finish the pending key, of whatever form. -/
def finish : Call Unit := do
  let b ← get
  match b.pending with
  | none => return ()
  | some k =>
    set { b with pending := none }
    place k

/-- The identifier of all keys. The builder keeps them and can go on, so it can
build again; only the number of keys is limited. -/
def build : Call ResourceId := do
  finish
  let b ← get
  b.limits.check .pathDepth b.keys.length
  return ⟨b.keys⟩

end Builder

end ResourceId

end Yang.Instance
