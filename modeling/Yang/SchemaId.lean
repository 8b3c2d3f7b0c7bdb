import Yang.Revision
import Yang.Text.Cut

/-!
# Identifiers and paths of schema nodes

A node is identified by its name and the namespace of the module that defines it.
Identifiers are ordered by name and then by namespace.

A path names a node the way a reader of the schema sees it: the module, its revision if
it matters, and the names from the top of the module down. In a text the parts stand
between slashes, and empty parts do not count. A part directly after the module that is
a revision pins the revision.
-/

namespace Yang

/-- The name of a node, qualified by the namespace of its module. Two modules
may use one name, so a name alone does not tell nodes apart. -/
structure SchemaId where
  name : String
  ns : String
deriving DecidableEq, Repr

namespace SchemaId

/-- The namespace stands in braces before the name; an empty one is left out. -/
def text (id : SchemaId) : String :=
  if id.ns = "" then id.name else "\x7b" ++ id.ns ++ "\x7d" ++ id.name

/-- Identifiers are compared by name, and equal names by namespace. -/
instance : Ord SchemaId where
  compare a b := (compare a.name b.name).then (compare a.ns b.ns)

def le (a b : SchemaId) : Bool := compare a b != .gt

end SchemaId

structure Path where
  module : String
  revision : Option String := none
  segments : List String := []
deriving DecidableEq, Repr

namespace Path

def withRevision (p : Path) (revision : String) : Except Error Path := do
  let canonical ← Revision.validate revision
  return { p with revision := some canonical }

/-- The path of a module and the parts after it. -/
def afterModule (module : String) : List String → Path
  | [] => ⟨module, none, []⟩
  | segment :: rest =>
    match Revision.parse? segment with
    | some revision => ⟨module, some revision, rest⟩
    | none => ⟨module, none, segment :: rest⟩

/-- The path of parts, the first of which names the module. -/
def ofParts : List String → Except Error Path
  | [] => .error (.path .noModule)
  | module :: rest =>
    if module = "" then .error (.path .noModule) else .ok (afterModule module rest)

def parse (s : String) : Except Error Path :=
  ofParts ((Text.parts '/' s).filter fun part => part != "")

def text (p : Path) : String :=
  let revision := match p.revision with
    | some r => "@" ++ r
    | none => ""
  p.module ++ revision ++ String.join (p.segments.map ("/" ++ ·))

end Path

end Yang
