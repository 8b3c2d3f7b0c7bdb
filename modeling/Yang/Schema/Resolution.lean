import Yang.Limits
import Yang.Name
import Yang.Schema.Tree

/-!
# Resolving paths

A path is followed from a module through the contexts of the nodes on the way, name by
name. Names match leniently. Below an anydata node the members that are registered for
it count as well, after its own context. If that fails, the path may name a node that
its module adds to another one: the name of the augment before the last name is left
out, and the rest is followed from each imported module in order.
-/

namespace Yang.Schema

/-- The context entries registered below each anydata node. -/
abbrev Members := NodeId → List ContextEntry

namespace Tree

/-- The segment matches the data node of an entry. -/
def matchesEntry (t : Tree) (segment : String) (e : ContextEntry) : Bool :=
  ((t.kind? e.node).map NodeKind.isData).getD false &&
    Name.segmentMatches segment (Name.attributeName (t.name e.node))

/-- The first entry below a node that a segment matches. What is registered
below an anydata node comes after what its own context holds. -/
def step? (t : Tree) (members : Members) (i : NodeId) (segment : String) :
    Option ContextEntry :=
  match (t.entries i).find? (t.matchesEntry segment) with
  | some e => some e
  | none =>
    if t.kind? i = some .anydata then (members i).find? (t.matchesEntry segment) else none

def walk? (t : Tree) (members : Members) (i : NodeId) (segment : String) :
    List String → Option ContextEntry
  | [] => t.step? members i segment
  | next :: rest =>
    match t.step? members i segment with
    | some e => walk? t members e.node next rest
    | none => none

/-- Follow segments from a node; no segments lead nowhere. -/
def follow? (t : Tree) (members : Members) (i : NodeId) : List String → Option ContextEntry
  | [] => none
  | segment :: rest => t.walk? members i segment rest

/-- Leave out the segment before the last one, where a path through an augment
has the name of the augment. -/
def collapse : List String → List String
  | [] => []
  | [a] => [a]
  | [_, b] => [b]
  | a :: b :: c :: rest => a :: collapse (b :: c :: rest)

/-- Resolve a path from a module. If its segments lead nowhere there, they are
collapsed and followed in the imported modules, in the order of the imports. -/
def resolve (t : Tree) (members : Members) (limits : Limits) (path : Path) (root : NodeId) :
    Except Error ContextEntry := do
  limits.check .pathDepth path.segments.length
  if path.segments.isEmpty then
    throw (.path (.noNode path.text))
  match t.follow? members root path.segments with
  | some e => return e
  | none =>
    match (t.imports root).findSome? fun i => t.follow? members i (collapse path.segments) with
    | some e => return e
    | none => throw (.path (.noMatch path.text))

end Tree

end Yang.Schema
