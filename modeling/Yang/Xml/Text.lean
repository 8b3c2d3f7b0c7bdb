import Yang.Text.Cut
import Yang.Text.Digit
import Yang.Xml.Name

/-!
# Text of XML

What a text or an attribute value denotes. References are replaced by their characters;
there are references by code point and five by name. Line ends become new lines, and in
attribute values white space becomes blanks, except where a reference wrote it.
-/

namespace Yang.Xml

/-- A character of a text, and whether it was written as a reference. -/
inductive Piece
  | plain (c : Char)
  | reference (c : Char)
deriving DecidableEq

/-- The character of a reference by code point. A number that is no character
stands for the replacement character; the character has to be allowed in
documents. -/
def codePoint? (base : Nat) (digits : List Char) : Option Char :=
  if digits.isEmpty then none
  else
    match Text.number? base digits with
    | none => none
    | some n =>
      let c := if n.isValidChar then Char.ofNat n else '\ufffd'
      if n < 0x100000000 ∧ isAllowed c then some c else none

/-- The character for which the name of a reference stands. -/
def referent? : List Char → Option Char
  | '#' :: 'x' :: digits => codePoint? 16 digits
  | '#' :: digits => codePoint? 10 digits
  | ['l', 't'] => some '<'
  | ['g', 't'] => some '>'
  | ['a', 'm', 'p'] => some '&'
  | ['a', 'p', 'o', 's'] => some '\''
  | ['q', 'u', 'o', 't'] => some '"'
  | _ => none

/-- The pieces of what follows an ampersand: a reference ends at a semicolon. -/
def afterAmpersand? (cs : List Char) : Option (List Piece) :=
  match Text.cut? [';'] cs with
  | none => none
  | some (name, rest) =>
    (referent? name).map fun c => .reference c :: rest.map .plain

def pieces? (written : List Char) : Option (List Piece) :=
  match written.splitOn '&' with
  | [] => some []
  | first :: rest =>
    (rest.mapM afterAmpersand?).map fun others => first.map .plain ++ others.flatten

/-- Put a plain character before others, which stand in reverse. A carriage
return becomes a new line when the next character comes, which is left out if it
is a new line itself; at the end of the text it becomes a new line at once. -/
def pushPlain (c : Char) (isLast : Bool) : List Char → List Char
  | '\r' :: out =>
    if c = '\n' then '\n' :: out
    else if isLast && c == '\r' then '\n' :: '\n' :: out
    else c :: '\n' :: out
  | out => if isLast && c == '\r' then '\n' :: out else c :: out

/-- The characters that pieces denote, after those in `out`, which stand in
reverse. The character of a reference is taken as it is, and so is the plain one
directly after it. -/
def denoteFrom (out : List Char) (asIs : Bool) : List Piece → List Char
  | [] => out.reverse
  | .reference c :: rest => denoteFrom (c :: out) true rest
  | .plain c :: rest =>
    denoteFrom (if asIs then c :: out else pushPlain c rest.isEmpty out) false rest

def content? (written : List Char) : Option String :=
  (pieces? written).map fun ps => String.ofList (denoteFrom [] false ps)

/-- The text of a character data section, in which there are no references. -/
def characters (written : List Char) : String :=
  String.ofList (denoteFrom [] false (written.map .plain))

/-- The characters of an attribute value. A carriage return before a new line
does not count, and other white space becomes a blank. -/
def valueChars : List Piece → List Char
  | [] => []
  | .reference c :: rest => c :: valueChars rest
  | .plain c :: rest =>
    if c = '\r' ∧ rest.head? = some (.plain '\n') then valueChars rest
    else (if isSpace c then ' ' else c) :: valueChars rest

def value? (written : List Char) : Option String :=
  (pieces? written).map fun ps => String.ofList (valueChars ps)

end Yang.Xml
