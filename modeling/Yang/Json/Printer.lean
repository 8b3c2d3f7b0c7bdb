import Yang.Json.Value

/-!
# Writing JSON

A value is written as its tokens, one after the other and without white space between
them. In strings only the quote, the backslash and the control characters are escaped,
by one letter where there is one and by a code unit otherwise. The indented form
holds the same tokens and puts each item and member on a line of its own.
-/

namespace Yang.Json

/-- The letter of the escape of a character, if it has one that is used in
writing. -/
def escapeLetter? (c : Char) : Option Char :=
  if c = '"' ∨ c = '\\' then some c
  else if c = '\x08' then some 'b'
  else if c = '\x0c' then some 'f'
  else if c = '\n' then some 'n'
  else if c = '\r' then some 'r'
  else if c = '\t' then some 't'
  else none

def Piece.ofChar (c : Char) : Piece :=
  if c.toNat < 0x20 ∧ (escapeLetter? c).isNone then .unit c.toNat else .char c

def hexDigit (n : Nat) : Char := Nat.digitChar n

def Piece.text : Piece → List Char
  | .char c =>
    match escapeLetter? c with
    | some e => ['\\', e]
    | none => [c]
  | .unit n =>
    ['\\', 'u', hexDigit (n / 4096 % 16), hexDigit (n / 256 % 16), hexDigit (n / 16 % 16),
      hexDigit (n % 16)]

def Token.text : Token → List Char
  | .openBrace => ['{']
  | .closeBrace => ['}']
  | .openBracket => ['[']
  | .closeBracket => [']']
  | .colon => [':']
  | .comma => [',']
  | .null => ['n', 'u', 'l', 'l']
  | .boolean true => ['t', 'r', 'u', 'e']
  | .boolean false => ['f', 'a', 'l', 's', 'e']
  | .number n => n.text
  | .string s => '"' :: s.flatMap Piece.text ++ ['"']

def Token.ofString (s : String) : Token :=
  .string (s.toList.map Piece.ofChar)

mutual

def Value.tokens : Value → List Token
  | .null => [.null]
  | .boolean b => [.boolean b]
  | .number n => [.number n.numeral]
  | .string s => [.ofString s]
  | .array items => .openBracket :: Value.tokensOfItems true items
  | .object members => .openBrace :: Value.tokensOfMembers true members

/-- The tokens of the items of an array and of its end; all items but the first
follow a comma. -/
def Value.tokensOfItems (first : Bool) : List Value → List Token
  | [] => [.closeBracket]
  | v :: vs =>
    (if first then [] else [.comma]) ++ v.tokens ++ Value.tokensOfItems false vs

/-- The tokens of the members of an object and of its end. -/
def Value.tokensOfMembers (first : Bool) : List (String × Value) → List Token
  | [] => [.closeBrace]
  | (name, v) :: vs =>
    (if first then [] else [.comma]) ++ .ofString name :: .colon :: v.tokens ++
      Value.tokensOfMembers false vs

end

def Value.compact (v : Value) : String :=
  String.ofList (v.tokens.flatMap Token.text)

/-- A new line that begins with two blanks for each level. -/
def newLine (level : Nat) : List Char :=
  '\n' :: List.replicate (2 * level) ' '

mutual

/-- The characters of a value whose items stand one level further in than
`level`. -/
def Value.indented (level : Nat) : Value → List Char
  | .array [] => ['[', ']']
  | .array (v :: vs) =>
    '[' :: newLine (level + 1) ++ v.indented (level + 1) ++
      Value.indentedItems level vs ++ newLine level ++ [']']
  | .object [] => ['{', '}']
  | .object ((name, v) :: vs) =>
    '{' :: newLine (level + 1) ++ (Token.ofString name).text ++ [':', ' '] ++
      v.indented (level + 1) ++ Value.indentedMembers level vs ++ newLine level ++ ['}']
  | .null => Token.null.text
  | .boolean b => (Token.boolean b).text
  | .number n => n.numeral.text
  | .string s => (Token.ofString s).text

/-- Further items, each after a comma and a new line. -/
def Value.indentedItems (level : Nat) : List Value → List Char
  | [] => []
  | v :: vs =>
    ',' :: newLine (level + 1) ++ v.indented (level + 1) ++ Value.indentedItems level vs

def Value.indentedMembers (level : Nat) : List (String × Value) → List Char
  | [] => []
  | (name, v) :: vs =>
    ',' :: newLine (level + 1) ++ (Token.ofString name).text ++ [':', ' '] ++
      v.indented (level + 1) ++ Value.indentedMembers level vs

end

/-- A value with each item and member on a line of its own. -/
def Value.pretty (v : Value) : String :=
  String.ofList (v.indented 0)

end Yang.Json
