import Yang.Json.Number
import Yang.Json.Written

/-!
# JSON values

A value holds what a document means: its strings are characters, its numbers are in
range, and the members of an object are sorted by name, each name once. When a
document repeats a name the last member counts. A document that nests deeper than the
limit, or that holds a number out of range or half of a pair of code units, has no
value.
-/

namespace Yang.Json

inductive Value
  | null
  | boolean (b : Bool)
  | number (n : Number)
  | string (s : String)
  | array (items : List Value)
  | object (members : List (String × Value))

/-- The characters of a string as it is written. A high surrogate has to be
followed by a low one, and the two form one character. -/
def characters? : List Piece → Option (List Char)
  | [] => some []
  | .char c :: ps => (characters? ps).map (c :: ·)
  | .unit n :: ps =>
    if 0xD800 ≤ n ∧ n < 0xDC00 then
      match ps with
      | .unit m :: rest =>
        if 0xDC00 ≤ m ∧ m < 0xE000 then
          (characters? rest).map
            (Char.ofNat (0x10000 + (n - 0xD800) * 0x400 + (m - 0xDC00)) :: ·)
        else none
      | _ => none
    else if 0xDC00 ≤ n ∧ n < 0xE000 then none
    else (characters? ps).map (Char.ofNat n :: ·)

def text? (pieces : List Piece) : Option String :=
  (characters? pieces).map String.ofList

/-- Put a member into sorted members, in the place of a member of the same name.
Objects are sorted tables, so the order of members in a document is lost. -/
def putMember {α : Type} (name : String) (v : α) : List (String × α) → List (String × α)
  | [] => [(name, v)]
  | (other, w) :: rest =>
    if name < other then (name, v) :: (other, w) :: rest
    else if name = other then (name, v) :: rest
    else (other, w) :: putMember name v rest

/-- The deepest nesting of arrays and objects that has a value. -/
def depthLimit : Nat := 127

mutual

/-- How deep arrays and objects nest. -/
def Written.depth : Written → Nat
  | .null | .boolean _ | .number _ | .string _ => 0
  | .array items => Written.depthOfItems items + 1
  | .object members => Written.depthOfMembers members + 1

def Written.depthOfItems : List Written → Nat
  | [] => 0
  | w :: ws => max w.depth (Written.depthOfItems ws)

def Written.depthOfMembers : List (List Piece × Written) → Nat
  | [] => 0
  | (_, w) :: ws => max w.depth (Written.depthOfMembers ws)

end

mutual

def Value.ofWritten? : Written → Option Value
  | .null => some .null
  | .boolean b => some (.boolean b)
  | .number n => (Number.ofNumeral? n).map .number
  | .string s => (text? s).map .string
  | .array items => (Value.itemsOfWritten? items).map .array
  | .object members => (Value.membersOfWritten? [] members).map .object

def Value.itemsOfWritten? : List Written → Option (List Value)
  | [] => some []
  | w :: ws =>
    match Value.ofWritten? w with
    | none => none
    | some v => (Value.itemsOfWritten? ws).map (v :: ·)

/-- The members of an object, put into those read before. -/
def Value.membersOfWritten? (seen : List (String × Value)) :
    List (List Piece × Written) → Option (List (String × Value))
  | [] => some seen
  | (name, w) :: ws =>
    match text? name, Value.ofWritten? w with
    | some name, some v => Value.membersOfWritten? (putMember name v seen) ws
    | _, _ => none

end

/-- The value of a text that is a document within the depth limit. The limit is
that of the reader, whatever the codec allows. -/
def Value.read? (text : String) : Option Value :=
  (Written.read? text).bind fun w =>
    if w.depth ≤ depthLimit then Value.ofWritten? w else none

def Value.member? (name : String) : Value → Option Value
  | .object members => members.lookup name
  | _ => none

end Yang.Json
