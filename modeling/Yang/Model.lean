import Yang.Name
import Yang.Schema.Tree
import Yang.Version

/-!
# Models

A model is a set of modules that were compiled together and are registered under one
id. A registration asks for a model; each module counts once in it, however often it is
named.
-/

namespace Yang

/-- A module of a model, with its root in the schema tree. -/
structure Module where
  id : ModuleId
  ns : String
  root : Schema.NodeId
deriving DecidableEq, Repr

structure Model where
  id : String
  modules : List Module
deriving DecidableEq, Repr

def Model.module? (m : Model) (id : ModuleId) : Option Module :=
  m.modules.find? fun module => module.id == id

/-- A request to register a model. -/
structure Registration where
  model : String
  modules : List ModuleId := []
deriving DecidableEq, Repr

namespace Registration

/-- A request for a model whose id is made of free text. -/
def normalized (text : String) : Except Error Registration := do
  let id ← Name.normalizeModelId text
  return { model := id }

def withModule (p : Registration) (id : ModuleId) : Registration :=
  if id ∈ p.modules then p else { p with modules := p.modules ++ [id] }

end Registration

end Yang
