/-!
# Source locations

A compiled statement remembers where it was declared, so that an error can point back
at the text of the module.
-/

namespace Yang

/-- A position in the text of a module: the file, if the text comes from one,
the line counted from one and the column counted from zero. -/
structure Location where
  file : Option String
  line : Nat
  column : Nat
deriving DecidableEq, Repr

namespace Location

/-- A location in a text that has no file. -/
def anonymous (line column : Nat) : Location := ⟨none, line, column⟩

def text (l : Location) : String :=
  match l.file with
  | some file => s!"in {file} at line {l.line}, column {l.column}"
  | none => s!"at line {l.line}, column {l.column}"

end Location

/-- A message about a statement, with the location of the statement when it is
known. -/
structure Remark where
  message : String
  location : Option Location
deriving DecidableEq, Repr

def Remark.text (r : Remark) : String :=
  match r.location with
  | some l => s!"{r.message} {l.text}"
  | none => r.message

end Yang
