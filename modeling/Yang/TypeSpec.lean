import Yang.Limits
import Yang.Range

/-!
# Types of leaves

The type of a leaf is a built-in type, a reference to a typedef, a leafref whose
referred type is known, or a union of types in order. A literal is read by following
these indirections to a built-in type and checking every range on the way back. How
far they may be followed is bounded. Of a union the first member type that accepts the
literal decides.
-/

namespace Yang

/-- The type of a leaf, of a leaf-list or of a typedef. -/
inductive TypeSpec
  | builtin (type : Builtin) (range : Option Range)
  /-- A reference to a typedef: the name of the typedef, its base type, its own range and
  location, and the range at the point of use. -/
  | derived (name : String) (base : TypeSpec) (own : Option Range)
      (location : Option Location) (use : Option Range)
  | leafref (path : String) (effective : TypeSpec)
  | union (members : List TypeSpec)

namespace TypeSpec

/-- The built-in type by which a type is declared. -/
def declared : TypeSpec → Builtin
  | .builtin type _ => type
  | .derived _ _ _ _ _ => .derived
  | .leafref _ _ => .leafref
  | .union _ => .union

/-- The built-in type that is reached through typedefs and leafrefs. -/
def effective : TypeSpec → Builtin
  | .builtin type _ => type
  | .derived _ base _ _ _ => base.effective
  | .leafref _ target => target.effective
  | .union _ => .union

/-- The narrowest range in force. Each step of a derivation narrows what it
derives from, so the last range written holds all that the others do. -/
def effectiveRange : TypeSpec → Option Range
  | .builtin _ range => range
  | .derived _ base own _ use => use.or (own.or base.effectiveRange)
  | .leafref _ target => target.effectiveRange
  | .union _ => none

def native (t : TypeSpec) : NativeForm := t.effective.native

/-- The range written by an expression that restricts a type further. -/
def restriction (t : TypeSpec) (expression : String) : Except Error Range :=
  Range.parse expression t.effective t.effectiveRange

def withRange (t : TypeSpec) (expression : String) : Except Error TypeSpec := do
  let range ← t.restriction expression
  match t with
  | .builtin type _ => return .builtin type (some range)
  | .derived name base own location _ => return .derived name base own location (some range)
  | other => throw (.literal (.notRangeable other.declared.text))

/-- Check the range of a step, if it has one, on the way back. -/
def checkRange (range : Option Range) (v : Value) : Except Error Unit :=
  match range with
  | some r => r.check v
  | none => .ok ()

mutual

/-- The value of a literal, after `depth` indirections. The ranges are checked
on the way back, those of the base type first. -/
def readAt (limits : Limits) (raw : String) (depth : Nat) : TypeSpec → Except Error Value
  | .builtin type range => do
    limits.check .derivationDepth depth
    let v ← Value.parse raw type
    checkRange range v
    return v
  | .derived _ base own _ use => do
    limits.check .derivationDepth depth
    let v ← readAt limits raw (depth + 1) base
    checkRange own v
    checkRange use v
    return v
  | .leafref _ target => do
    limits.check .derivationDepth depth
    readAt limits raw (depth + 1) target
  | .union members => do
    limits.check .derivationDepth depth
    match ← readFirst limits raw (depth + 1) members with
    | some v => return v
    | none => throw (.noUnionMember raw members.length)

/-- The value that the first accepting member of a union gives to a literal. An
exceeded limit is not a rejection and ends the search. -/
def readFirst (limits : Limits) (raw : String) (depth : Nat) :
    List TypeSpec → Except Error (Option Value)
  | [] => .ok none
  | member :: rest =>
    match readAt limits raw depth member with
    | .ok v => .ok (some v)
    | .error (.limitExceeded quantity actual bound) =>
      .error (.limitExceeded quantity actual bound)
    | .error _ => readFirst limits raw depth rest

end

def read (t : TypeSpec) (raw : String) (limits : Limits) : Except Error Value :=
  readAt limits raw 0 t

end TypeSpec

/-- A named type with exactly one base type. -/
structure Typedef where
  name : String
  base : TypeSpec
  range : Option Range := none
  location : Option Location := none

namespace Typedef

/-- Restrict a typedef. The range keeps the location of the typedef. -/
def withRange (d : Typedef) (expression : String) : Except Error Typedef := do
  let range ← d.base.restriction expression
  let located := match d.location with
    | some l => { range with location := some l }
    | none => range
  return { d with range := some located }

def effectiveRange (d : Typedef) : Option Range := d.range.or d.base.effectiveRange

end Typedef

namespace TypeSpec

def ofTypedef (d : Typedef) : TypeSpec := .derived d.name d.base d.range d.location none

def typedef? : TypeSpec → Option Typedef
  | .derived name base own location _ => some ⟨name, base, own, location⟩
  | _ => none

def useRange : TypeSpec → Option Range
  | .builtin _ range => range
  | .derived _ _ _ _ use => use
  | _ => none

end TypeSpec

end Yang
