/-!
# Characters and names of XML

Which characters a document may hold and which of them form names. A name may be
qualified: a colon then stands between the qualifier and the local name.
-/

namespace Yang.Xml

/-- A character that a document may hold. -/
def isAllowed (c : Char) : Bool :=
  if c.toNat < 0x20 then c == '\t' || c == '\n' || c == '\r'
  else c.toNat != 0xFFFE && c.toNat != 0xFFFF

/-- A character that counts as white space between the parts of markup. -/
def isSpace (c : Char) : Bool := c == ' ' || c == '\t' || c == '\n' || c == '\r'

/-- The code points past the basic Latin block with which a name may begin. -/
def startRanges : List (Nat × Nat) :=
  [(0xC0, 0xD6), (0xD8, 0xF6), (0xF8, 0x2FF), (0x370, 0x37D), (0x37F, 0x1FFF),
   (0x200C, 0x200D), (0x2070, 0x218F), (0x2C00, 0x2FEF), (0x3001, 0xD7FF),
   (0xF900, 0xFDCF), (0xFDF0, 0xFFFD), (0x10000, 0xEFFFF)]

/-- The further code points past the basic Latin block with which a name may
continue. -/
def partRanges : List (Nat × Nat) := [(0xB7, 0xB7), (0x300, 0x36F), (0x203F, 0x2040)]

def within (ranges : List (Nat × Nat)) (n : Nat) : Bool :=
  ranges.any fun (first, last) => first ≤ n && n ≤ last

def isNameStart (c : Char) : Bool :=
  c.isAlpha || c == ':' || c == '_' || within startRanges c.toNat

def isNamePart (c : Char) : Bool :=
  isNameStart c || c.isDigit || c == '-' || c == '.' || within partRanges c.toNat

/-- A name as it is written. The qualifier is empty if there is none. -/
structure QualifiedName where
  qualifier : List Char
  name : List Char
deriving DecidableEq

/-- The text begins as a name does. -/
def beginsName (cs : List Char) : Bool := cs.head?.any isNameStart

/-- The qualified name that a run of name characters forms. It has at most one
colon, and both parts begin as names do, but the qualifier may be empty. -/
def QualifiedName.ofRun? (run : List Char) : Option QualifiedName :=
  match run.splitOn ':' with
  | [name] => if beginsName name then some ⟨[], name⟩ else none
  | [qualifier, name] =>
    if beginsName name && (qualifier.isEmpty || beginsName qualifier) then
      some ⟨qualifier, name⟩
    else none
  | _ => none

def QualifiedName.read? (cs : List Char) : Option (QualifiedName × List Char) :=
  (QualifiedName.ofRun? (cs.takeWhile isNamePart)).map fun n => (n, cs.dropWhile isNamePart)

theorem QualifiedName.ofRun?_nil : QualifiedName.ofRun? [] = none := rfl

theorem QualifiedName.read?_length {cs rest : List Char} {n : QualifiedName}
    (h : QualifiedName.read? cs = some (n, rest)) : rest.length < cs.length := by
  obtain ⟨m, run, equal⟩ := Option.map_eq_some_iff.mp h
  obtain ⟨-, rfl⟩ := by simpa using equal
  have nonempty : cs.takeWhile isNamePart ≠ [] := by
    intro empty
    rw [empty, QualifiedName.ofRun?_nil] at run
    cases run
  have whole := congrArg List.length (List.takeWhile_append_dropWhile (p := isNamePart) (l := cs))
  have := List.length_pos_iff.mpr nonempty
  rw [List.length_append] at whole
  omega

end Yang.Xml
