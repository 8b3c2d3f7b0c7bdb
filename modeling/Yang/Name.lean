import Yang.Error
import Yang.Text.Letter

/-!
# Names

Identifiers of schema nodes, ids of models, and the lenient comparison by which the
segments of a path are matched with node names. A name is folded to its attribute
name: separators vanish, the letter after a separator becomes a capital and the first
letter becomes small. Two names match if their attribute names agree up to the case of
ASCII letters.
-/

namespace Yang.Name

def isStart (c : Char) : Bool := c.isAlpha || c == '_'

def isPart (c : Char) : Bool := c.isAlphanum || c == '_' || c == '.' || c == '-'

def isIdentifier (s : String) : Bool :=
  match s.toList with
  | [] => false
  | c :: cs => isStart c && cs.all isPart

def checkIdentifier (s : String) : Except Error Unit :=
  if isIdentifier s then .ok () else .error (.schema (.badIdentifier s))

/-- The text is a model id: it has the characters of identifiers and at least
one letter or digit. -/
def isModelId (s : String) : Bool :=
  s.toList.all isPart && s.toList.any Char.isAlphanum

/-- A character that normalizing a model id keeps. -/
def isKept (c : Char) : Bool := c.isAlphanum || c == '.' || c == '-'

/-- The maximal runs of characters that are kept. -/
def tokens (cs : List Char) : List (List Char) :=
  (cs.splitOnP fun c => !isKept c).filter fun token => !token.isEmpty

def joined (s : String) : String :=
  String.ofList (['_'].intercalate (tokens s.toList))

/-- Make a model id of free text: its runs of kept characters, joined. There is
none if no letter or digit is left. -/
def normalizeModelId (s : String) : Except Error String :=
  if isModelId (joined s) then .ok (joined s) else .error (.model (.badId s))

/-- A character that separates the words of a name. -/
def isSeparator (c : Char) : Bool := c == '-' || c == '_' || c == '.' || c == ' '

def attributeRest (capital : Bool) : List Char → List Char
  | [] => []
  | c :: cs =>
    if isSeparator c then attributeRest true cs
    else (if capital then Text.upper c else [c]) ++ attributeRest false cs

def attributeChars : List Char → List Char
  | [] => []
  | c :: cs => if isSeparator c then attributeChars cs else Text.lower c ++ attributeRest false cs

/-- The attribute name of an identifier: `interface-name` becomes
`interfaceName`. -/
def attributeName (s : String) : String := String.ofList (attributeChars s.toList)

/-- The segment of a path matches a name: their attribute names agree up to the
case of ASCII letters. Letters past the ASCII ones have to be equal as they
stand. -/
def segmentMatches (segment name : String) : Bool :=
  (attributeName segment).toList.map Char.toLower == (attributeName name).toList.map Char.toLower

@[simp] theorem toList_attributeName (s : String) :
    (attributeName s).toList = attributeChars s.toList := by
  simp [attributeName]

theorem segmentMatches_comm (s t : String) : segmentMatches s t = segmentMatches t s := by
  simp only [segmentMatches]
  exact Bool.eq_iff_iff.mpr (by simp only [beq_iff_eq]; exact eq_comm)

end Yang.Name
