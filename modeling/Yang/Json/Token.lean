import Yang.Text.Digit

/-!
# JSON tokens

A document is first cut into tokens. Numbers and strings keep the form in which they
are written: a number its digits, a string its characters and its escaped code units.
Whether a number is in range, or two escaped units form a character, is decided where
a value is wanted; a reader that skips a member does not ask.
-/

namespace Yang.Json

/-- A number as it is written. There is a fraction or an exponent only if it has
digits. -/
structure Numeral where
  negative : Bool
  whole : List Char
  fraction : List Char
  /-- The sign of the exponent, true for a minus, and its digits. -/
  exponent : Option (Bool × List Char)
deriving DecidableEq, Repr

/-- One step of a string as it is written. -/
inductive Piece
  /-- A character that stands for itself or has an escape of one letter. -/
  | char (c : Char)
  /-- A code unit of sixteen bits, escaped by its four hexadecimal digits. -/
  | unit (n : Nat)
deriving DecidableEq, Repr

inductive Token
  | openBrace
  | closeBrace
  | openBracket
  | closeBracket
  | colon
  | comma
  | null
  | boolean (b : Bool)
  | number (n : Numeral)
  | string (s : List Piece)
deriving DecidableEq, Repr

def isSpace (c : Char) : Bool :=
  c == ' ' || c == '\t' || c == '\n' || c == '\r'

def shortEscape? (c : Char) : Option Char :=
  if c = '"' ∨ c = '\\' ∨ c = '/' then some c
  else if c = 'b' then some '\x08'
  else if c = 'f' then some '\x0c'
  else if c = 'n' then some '\n'
  else if c = 'r' then some '\r'
  else if c = 't' then some '\t'
  else none

/-- The code unit written by four hexadecimal digits. -/
def hexUnit? (a b c d : Char) : Option Nat := Text.number? 16 [a, b, c, d]

/-- Read a string up to its closing quote. The pieces read before are in `seen`,
last first. A control character has to be escaped. -/
def pieces? (seen : List Piece) : List Char → Option (List Piece × List Char)
  | [] => none
  | '"' :: r => some (seen.reverse, r)
  | '\\' :: 'u' :: a :: b :: c :: d :: r =>
    match hexUnit? a b c d with
    | some n => pieces? (.unit n :: seen) r
    | none => none
  | '\\' :: c :: r =>
    match shortEscape? c with
    | some e => pieces? (.char e :: seen) r
    | none => none
  | c :: r => if c = '\\' ∨ c.toNat < 0x20 then none else pieces? (.char c :: seen) r

def digits? (cs : List Char) : Option (List Char × List Char) :=
  if (cs.takeWhile Char.isDigit).isEmpty then none
  else some (cs.takeWhile Char.isDigit, cs.dropWhile Char.isDigit)

/-- The fraction of a number, with its point. -/
def fraction? : List Char → Option (List Char × List Char)
  | '.' :: r => digits? r
  | r => some ([], r)

def signedDigits? : List Char → Option ((Bool × List Char) × List Char)
  | '-' :: r => (digits? r).map fun (ds, rest) => ((true, ds), rest)
  | '+' :: r => (digits? r).map fun (ds, rest) => ((false, ds), rest)
  | r => (digits? r).map fun (ds, rest) => ((false, ds), rest)

def exponent? : List Char → Option (Option (Bool × List Char) × List Char)
  | 'e' :: r => (signedDigits? r).map fun (e, rest) => (some e, rest)
  | 'E' :: r => (signedDigits? r).map fun (e, rest) => (some e, rest)
  | r => some (none, r)

/-- Read a number without its sign. A whole part of several digits does not
begin with zero. -/
def Numeral.readUnsigned? (negative : Bool) (cs : List Char) :
    Option (Numeral × List Char) := do
  let (whole, r) ← digits? cs
  if whole.head? = some '0' ∧ whole.length ≠ 1 then none
  let (fraction, r) ← fraction? r
  let (exponent, r) ← exponent? r
  some (⟨negative, whole, fraction, exponent⟩, r)

def Numeral.read? : List Char → Option (Numeral × List Char)
  | '-' :: r => readUnsigned? true r
  | r => readUnsigned? false r

/-- Read the token at the front, which is not white space. -/
def Token.read? : List Char → Option (Token × List Char)
  | '{' :: r => some (.openBrace, r)
  | '}' :: r => some (.closeBrace, r)
  | '[' :: r => some (.openBracket, r)
  | ']' :: r => some (.closeBracket, r)
  | ':' :: r => some (.colon, r)
  | ',' :: r => some (.comma, r)
  | '"' :: r => (pieces? [] r).map fun (s, rest) => (.string s, rest)
  | 'n' :: 'u' :: 'l' :: 'l' :: r => some (.null, r)
  | 't' :: 'r' :: 'u' :: 'e' :: r => some (.boolean true, r)
  | 'f' :: 'a' :: 'l' :: 's' :: 'e' :: r => some (.boolean false, r)
  | r => (Numeral.read? r).map fun (n, rest) => (.number n, rest)

theorem dropWhile_length (p : Char → Bool) (cs : List Char) :
    (cs.dropWhile p).length ≤ cs.length :=
  (List.dropWhile_suffix p).length_le

theorem pieces?_length {seen s : List Piece} {cs rest : List Char}
    (h : pieces? seen cs = some (s, rest)) : rest.length < cs.length := by
  fun_induction pieces? seen cs with
  | case1 => cases h
  | case2 => obtain ⟨-, rfl⟩ := by simpa using h
             simp
  | case3 _ _ _ _ _ _ _ _ ih => have := ih h; simp only [List.length_cons]; omega
  | case4 => cases h
  | case5 _ _ _ _ _ _ ih => have := ih h; simp only [List.length_cons]; omega
  | case6 => cases h
  | case7 => cases h
  | case8 _ _ _ _ _ _ _ ih => have := ih h; simp only [List.length_cons]; omega

theorem digits?_length {cs ds rest : List Char} (h : digits? cs = some (ds, rest)) :
    rest.length < cs.length := by
  cases cs with
  | nil => simp [digits?] at h
  | cons c r =>
    unfold digits? at h
    split at h
    · cases h
    · rename_i nonempty
      obtain ⟨-, rfl⟩ := by simpa using h
      have digit : c.isDigit = true := by
        cases other : c.isDigit with
        | true => rfl
        | false => exact absurd (by simp [List.takeWhile, other]) nonempty
      simp only [List.dropWhile_cons_of_pos digit, List.length_cons]
      have := dropWhile_length Char.isDigit r
      omega

theorem fraction?_length {cs f rest : List Char} (h : fraction? cs = some (f, rest)) :
    rest.length ≤ cs.length := by
  unfold fraction? at h
  split at h
  · have := digits?_length h
    simp only [List.length_cons]
    omega
  · obtain ⟨-, rfl⟩ := by simpa using h
    exact Nat.le_refl _

theorem signedDigits?_length {cs rest : List Char} {e : Bool × List Char}
    (h : signedDigits? cs = some (e, rest)) : rest.length < cs.length := by
  unfold signedDigits? at h
  split at h <;>
    (obtain ⟨⟨ds, r⟩, read, equal⟩ := Option.map_eq_some_iff.mp h
     obtain ⟨-, rfl⟩ := by simpa using equal
     have := digits?_length read
     simp only [List.length_cons] at *
     omega)

theorem exponent?_length {cs rest : List Char} {e : Option (Bool × List Char)}
    (h : exponent? cs = some (e, rest)) : rest.length ≤ cs.length := by
  unfold exponent? at h
  split at h
  · obtain ⟨⟨ds, r⟩, read, equal⟩ := Option.map_eq_some_iff.mp h
    obtain ⟨-, rfl⟩ := by simpa using equal
    have := signedDigits?_length read
    simp only [List.length_cons]
    omega
  · obtain ⟨⟨ds, r⟩, read, equal⟩ := Option.map_eq_some_iff.mp h
    obtain ⟨-, rfl⟩ := by simpa using equal
    have := signedDigits?_length read
    simp only [List.length_cons]
    omega
  · obtain ⟨-, rfl⟩ := by simpa using h
    exact Nat.le_refl _

theorem readUnsigned?_length {negative : Bool} {cs rest : List Char} {n : Numeral}
    (h : Numeral.readUnsigned? negative cs = some (n, rest)) : rest.length < cs.length := by
  simp only [Numeral.readUnsigned?, Option.bind_eq_bind, Option.bind_eq_some_iff] at h
  obtain ⟨⟨whole, r⟩, first, h⟩ := h
  split at h
  · simp at h
  · simp only [Option.bind_eq_some_iff] at h
    obtain ⟨⟨fraction, r'⟩, second, ⟨exponent, r''⟩, third, equal⟩ := h
    obtain ⟨-, rfl⟩ := by simpa using equal
    have := digits?_length first
    have := fraction?_length second
    have := exponent?_length third
    simp only at this
    omega

theorem Numeral.read?_length {cs rest : List Char} {n : Numeral}
    (h : Numeral.read? cs = some (n, rest)) : rest.length < cs.length := by
  unfold Numeral.read? at h
  split at h
  · have := readUnsigned?_length h
    simp only [List.length_cons]
    omega
  · exact readUnsigned?_length h

/-- Reading a token uses up characters, which is why cutting a document into
tokens comes to an end. -/
theorem Token.read?_length {cs rest : List Char} {t : Token}
    (h : Token.read? cs = some (t, rest)) : rest.length < cs.length := by
  unfold Token.read? at h
  split at h
  case h_7 =>
    obtain ⟨⟨s, r⟩, read, equal⟩ := Option.map_eq_some_iff.mp h
    obtain ⟨-, rfl⟩ := by simpa using equal
    have := pieces?_length read
    simp only [List.length_cons]
    omega
  case h_11 =>
    obtain ⟨⟨n, r⟩, read, equal⟩ := Option.map_eq_some_iff.mp h
    obtain ⟨-, rfl⟩ := by simpa using equal
    exact Numeral.read?_length read
  all_goals
    obtain ⟨-, rfl⟩ := by simpa using h
    simp only [List.length_cons]
    omega

/-- Cut a document into tokens. The tokens found before are in `seen`, last
first. -/
def tokensFrom? (seen : List Token) (cs : List Char) : Option (List Token) :=
  match h : cs.dropWhile isSpace with
  | [] => some seen.reverse
  | c :: r =>
    match read : Token.read? (c :: r) with
    | none => none
    | some (t, rest) =>
      have : rest.length < cs.length :=
        Nat.lt_of_lt_of_le (Token.read?_length read) (h ▸ dropWhile_length isSpace cs)
      tokensFrom? (t :: seen) rest
termination_by cs.length

/-- The tokens of a document, if all of it consists of tokens and white space. -/
def tokens? (text : String) : Option (List Token) :=
  tokensFrom? [] text.toList

end Yang.Json
