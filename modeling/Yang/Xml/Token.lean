import Yang.Text.Cut
import Yang.Xml.Name

/-!
# Tokens of XML

A document is cut into tags, runs of text, character data sections, and comments and
instructions, of which only the places matter. References in texts and attribute values
are left as they are written. Document types are refused, and so is a declaration
anywhere but at the front.
-/

namespace Yang.Xml

structure Attribute where
  name : QualifiedName
  value : List Char
deriving DecidableEq

inductive Token
  /-- A start tag, or a tag that is the whole of an empty element. -/
  | start (name : QualifiedName) (attributes : List Attribute) (isEmpty : Bool)
  | finish (name : QualifiedName)
  | text (written : List Char)
  | characters (written : List Char)
  /-- A comment or an instruction. -/
  | aside

def skipSpace (cs : List Char) : List Char := cs.dropWhile isSpace

theorem skipSpace_length (cs : List Char) : (skipSpace cs).length ≤ cs.length :=
  (List.dropWhile_suffix isSpace).length_le

/-- Read what stands between two equal quotes; it must not hold the sign of a
tag. -/
def quoted? : List Char → Option (List Char × List Char)
  | [] => none
  | quote :: r =>
    if quote = '"' ∨ quote = '\'' then
      match r.dropWhile fun c => c != quote && c != '<' with
      | c :: rest =>
        if c = quote then some (r.takeWhile fun c => c != quote && c != '<', rest) else none
      | [] => none
    else none

theorem quoted?_length {cs v rest : List Char} (h : quoted? cs = some (v, rest)) :
    rest.length < cs.length := by
  cases cs with
  | nil => cases h
  | cons quote r =>
    simp only [quoted?] at h
    split at h
    · split at h
      · rename_i c tail dropped
        have := (List.dropWhile_suffix (l := r) fun c => c != quote && c != '<').length_le
        rw [dropped] at this
        split at h
        · obtain ⟨-, rfl⟩ := by simpa using h
          simp only [List.length_cons] at *
          omega
        · cases h
      · cases h
    · cases h

/-- Read an attribute: a name, an equals sign and a quoted value. -/
def Attribute.read? (cs : List Char) : Option (Attribute × List Char) :=
  match QualifiedName.read? cs with
  | none => none
  | some (name, r) =>
    match skipSpace r with
    | '=' :: r' => (quoted? (skipSpace r')).map fun (value, rest) => (⟨name, value⟩, rest)
    | _ => none

theorem Attribute.read?_length {cs rest : List Char} {a : Attribute}
    (h : Attribute.read? cs = some (a, rest)) : rest.length < cs.length := by
  unfold Attribute.read? at h
  split at h
  · cases h
  · rename_i name r first
    have begins := QualifiedName.read?_length first
    have blanks := skipSpace_length r
    split at h
    · rename_i r' equals
      obtain ⟨⟨v, s⟩, value, equal⟩ := Option.map_eq_some_iff.mp h
      obtain ⟨-, rfl⟩ := by simpa using equal
      have := quoted?_length value
      have := skipSpace_length r'
      rw [equals, List.length_cons] at blanks
      omega
    · cases h

/-- What follows the name in a start tag. -/
structure TagEnd where
  attributes : List Attribute
  isEmpty : Bool
  rest : List Char

/-- Read the rest of a start tag. White space stands before each attribute. -/
def TagEnd.read? (cs : List Char) : Option TagEnd :=
  match skipSpace cs with
  | '/' :: '>' :: rest => some ⟨[], true, rest⟩
  | '>' :: rest => some ⟨[], false, rest⟩
  | _ =>
    if cs.head?.any isSpace then
      match read : Attribute.read? (skipSpace cs) with
      | none => none
      | some (a, rest) =>
        have : rest.length < cs.length :=
          Nat.lt_of_lt_of_le (Attribute.read?_length read) (skipSpace_length cs)
        (TagEnd.read? rest).map fun e => { e with attributes := a :: e.attributes }
    else none
termination_by cs.length

theorem TagEnd.read?_length {cs : List Char} {e : TagEnd} (h : TagEnd.read? cs = some e) :
    e.rest.length < cs.length := by
  fun_induction TagEnd.read? cs generalizing e with
  | case1 cs rest front | case2 cs rest front =>
    cases h
    have := skipSpace_length cs
    simp only [front, List.length_cons] at this
    show rest.length < cs.length
    omega
  | case3 => cases h
  | case4 cs _ _ _ _ _ _ shorter ih =>
    obtain ⟨e', read, rfl⟩ := Option.map_eq_some_iff.mp h
    have := ih read
    simp only
    omega
  | case5 => cases h

theorem cut?_length {mark cs a b : List Char} (h : Text.cut? mark cs = some (a, b)) :
    b.length ≤ cs.length := by
  rw [Text.eq_of_cut? h]
  simp only [List.length_append]
  omega

/-- Read the rest of a comment: it holds no two dashes in a row and does not end
in one. -/
def comment? (cs : List Char) : Option (List Char) :=
  match Text.cut? ['-', '-', '>'] cs with
  | none => none
  | some (body, rest) =>
    if (Text.cut? ['-', '-'] body).isNone && body.getLast? != some '-' then some rest else none

/-- Read the rest of an instruction: its target is a name, and it is no
declaration. -/
def instruction? (cs : List Char) : Option (List Char) :=
  if beginsName cs && !(['x', 'm', 'l', ' '].isPrefixOf cs) then
    (Text.cut? ['?', '>'] cs).map Prod.snd
  else none

def finish? (cs : List Char) : Option (Token × List Char) :=
  match QualifiedName.read? cs with
  | none => none
  | some (name, r) =>
    match skipSpace r with
    | '>' :: rest => some (.finish name, rest)
    | _ => none

def start? (cs : List Char) : Option (Token × List Char) :=
  match QualifiedName.read? cs with
  | none => none
  | some (name, r) => (TagEnd.read? r).map fun e => (.start name e.attributes e.isEmpty, e.rest)

/-- Read a run of text, which must not look like the end of a character data
section. -/
def text? (cs : List Char) : Option (Token × List Char) :=
  let run := cs.takeWhile (· != '<')
  if (Text.cut? [']', ']', '>'] run).isNone then some (.text run, cs.dropWhile (· != '<'))
  else none

def Token.read? : List Char → Option (Token × List Char)
  | '<' :: '!' :: '-' :: '-' :: r => (comment? r).map fun rest => (.aside, rest)
  | '<' :: '!' :: '[' :: 'C' :: 'D' :: 'A' :: 'T' :: 'A' :: '[' :: r =>
    (Text.cut? [']', ']', '>'] r).map fun (body, rest) => (.characters body, rest)
  | '<' :: '!' :: _ => none
  | '<' :: '?' :: r => (instruction? r).map fun rest => (.aside, rest)
  | '<' :: '/' :: r => finish? r
  | '<' :: r => start? r
  | cs => text? cs

theorem comment?_length {cs rest : List Char} (h : comment? cs = some rest) :
    rest.length ≤ cs.length := by
  unfold comment? at h
  split at h
  · cases h
  · rename_i body tail cut
    split at h
    · cases h
      exact cut?_length cut
    · cases h

theorem instruction?_length {cs rest : List Char} (h : instruction? cs = some rest) :
    rest.length ≤ cs.length := by
  unfold instruction? at h
  split at h
  · obtain ⟨⟨body, tail⟩, cut, rfl⟩ := Option.map_eq_some_iff.mp h
    exact cut?_length cut
  · cases h

theorem finish?_length {cs rest : List Char} {t : Token} (h : finish? cs = some (t, rest)) :
    rest.length ≤ cs.length := by
  unfold finish? at h
  split at h
  · cases h
  · rename_i name r read
    have := QualifiedName.read?_length read
    have blanks := skipSpace_length r
    split at h
    · rename_i tail front
      cases h
      simp only [front, List.length_cons] at blanks
      omega
    · cases h

theorem start?_length {cs rest : List Char} {t : Token} (h : start? cs = some (t, rest)) :
    rest.length ≤ cs.length := by
  unfold start? at h
  split at h
  · cases h
  · rename_i name r read
    have := QualifiedName.read?_length read
    obtain ⟨e, tag, equal⟩ := Option.map_eq_some_iff.mp h
    cases equal
    have := TagEnd.read?_length tag
    omega

theorem text?_length {c : Char} {cs rest : List Char} {t : Token} (other : c ≠ '<')
    (h : text? (c :: cs) = some (t, rest)) : rest.length ≤ cs.length := by
  simp only [text?] at h
  split at h
  · cases h
    rw [List.dropWhile_cons_of_pos (by simpa using other)]
    exact (List.dropWhile_suffix _).length_le
  · cases h

theorem Token.read?_length {c : Char} {cs rest : List Char} {t : Token}
    (h : Token.read? (c :: cs) = some (t, rest)) : rest.length ≤ cs.length := by
  unfold Token.read? at h
  split at h
  · rename_i front
    cases front
    obtain ⟨tail, read, equal⟩ := Option.map_eq_some_iff.mp h
    cases equal
    have := comment?_length read
    simp only [List.length_cons]
    omega
  · rename_i front
    cases front
    obtain ⟨⟨body, tail⟩, read, equal⟩ := Option.map_eq_some_iff.mp h
    cases equal
    have := cut?_length read
    simp only [List.length_cons]
    omega
  · cases h
  · rename_i front
    cases front
    obtain ⟨tail, read, equal⟩ := Option.map_eq_some_iff.mp h
    cases equal
    have := instruction?_length read
    simp only [List.length_cons]
    omega
  · rename_i front
    cases front
    have := finish?_length h
    simp only [List.length_cons]
    omega
  · rename_i front
    cases front
    exact start?_length h
  · rename_i other
    exact text?_length (fun equal => other cs (by rw [equal])) h

/-- Cut a text into tokens. The tokens found before are in `seen`, last first. -/
def tokensFrom? (seen : List Token) : List Char → Option (List Token)
  | [] => some seen.reverse
  | c :: cs =>
    match read : Token.read? (c :: cs) with
    | none => none
    | some (t, rest) =>
      have : rest.length ≤ cs.length := Token.read?_length read
      tokensFrom? (t :: seen) rest
termination_by cs => cs.length
decreasing_by exact Nat.lt_succ_of_le this

/-- Leave out white space where something has to separate, unless the
declaration or the text is at its end. -/
def separated? (cs : List Char) : Option (List Char) :=
  if cs.isEmpty || cs.head?.any isSpace || ['?', '>'].isPrefixOf cs then some (skipSpace cs)
  else none

/-- Read a part of the declaration that begins with a word, if it is there. -/
def declared? (word : List Char) (cs : List Char) : Option (List Char) :=
  if word.isPrefixOf cs then (Attribute.read? cs).map Prod.snd else some cs

/-- Read the rest of a declaration: the version, which has to be there, the
encoding and whether the document stands alone. -/
def declaration? (cs : List Char) : Option (List Char) := do
  let cs ← separated? cs
  let cs ← if "version".toList.isPrefixOf cs then (Attribute.read? cs).map Prod.snd else none
  let cs ← separated? cs
  let cs ← if "encoding".toList.isPrefixOf cs then
      (Attribute.read? cs).bind fun (_, rest) => separated? rest
    else some cs
  let cs ← declared? "standalone".toList cs
  match skipSpace cs with
  | '?' :: '>' :: rest => some rest
  | _ => none

/-- The text after the byte order mark and the declaration, if they are there. -/
def body? (cs : List Char) : Option (List Char) :=
  let cs := if cs.head? = some '\ufeff' then cs.drop 1 else cs
  if "<?xml ".toList.isPrefixOf cs then declaration? (cs.drop 5) else some cs

/-- The tokens of a document, all of whose characters have to be allowed. -/
def tokens? (text : String) : Option (List Token) :=
  if text.toList.all isAllowed then (body? text.toList).bind (tokensFrom? []) else none

end Yang.Xml
