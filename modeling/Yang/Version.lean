import Yang.Revision

/-!
# Versions

The version of the library, that of the modeling language whose schemas it understands,
and those of the modules: a module is identified by its name and its revision.
-/

namespace Yang

def version : String := "0.1.0"

def languageVersion : String := "1.1"

/-- The name of a module and its revision, if it has one. -/
structure ModuleId where
  name : String
  revision : Option String := none
deriving DecidableEq, Repr

namespace ModuleId

/-- The qualified name of a module: the revision follows an at sign. -/
def text (id : ModuleId) : String :=
  match id.revision with
  | some r => id.name ++ "@" ++ r
  | none => id.name

def le (a b : ModuleId) : Bool :=
  if a.name = b.name then Revision.le a.revision b.revision else decide (a.name < b.name)

end ModuleId

end Yang
