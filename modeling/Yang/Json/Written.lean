import Yang.Json.Token

/-!
# Documents as they are written

A document is read from its tokens by a machine whose state holds the open arrays and
objects, innermost first. Each token moves the machine one step or is refused, so a
reading is one pass over the tokens and needs no bound on its depth. Nothing is lost
on the way: members keep their order and repeated names stay.
-/

namespace Yang.Json

/-- A document as it is written. Repeated members and the spelling of numbers
and strings are still there. -/
inductive Written
  | null
  | boolean (b : Bool)
  | number (n : Numeral)
  | string (s : List Piece)
  | array (items : List Written)
  | object (members : List (List Piece × Written))

namespace Written

/-- An array or object that is not closed yet, with what it holds so far, last
first. -/
inductive Frame
  | array (items : List Written)
  /-- The member of this name waits for its value. -/
  | object (members : List (List Piece × Written)) (name : List Piece)

/-- What the reader has seen, and what may follow. -/
inductive State
  /-- A value must follow. -/
  | value (stack : List Frame)
  /-- An array was opened: a value or its end must follow. -/
  | item (stack : List Frame)
  /-- An object was opened: a name or its end must follow. -/
  | member (stack : List Frame)
  /-- A name must follow these members. -/
  | name (members : List (List Piece × Written)) (stack : List Frame)
  /-- A colon must follow this name. -/
  | colon (members : List (List Piece × Written)) (name : List Piece) (stack : List Frame)
  /-- A value is complete. -/
  | complete (v : Written) (stack : List Frame)

def beginValue (stack : List Frame) : Token → Option State
  | .null => some (.complete .null stack)
  | .boolean b => some (.complete (.boolean b) stack)
  | .number n => some (.complete (.number n) stack)
  | .string s => some (.complete (.string s) stack)
  | .openBracket => some (.item stack)
  | .openBrace => some (.member stack)
  | _ => none

/-- Read a token after a complete value: it separates or closes. -/
def afterValue (v : Written) : List Frame → Token → Option State
  | .array items :: stack, .comma => some (.value (.array (v :: items) :: stack))
  | .array items :: stack, .closeBracket =>
    some (.complete (.array (v :: items).reverse) stack)
  | .object members name :: stack, .comma => some (.name ((name, v) :: members) stack)
  | .object members name :: stack, .closeBrace =>
    some (.complete (.object ((name, v) :: members).reverse) stack)
  | _, _ => none

/-- The state after a token, unless the token cannot stand there. -/
def step : State → Token → Option State
  | .value stack, t => beginValue stack t
  | .item stack, .closeBracket => some (.complete (.array []) stack)
  | .item stack, t => beginValue (.array [] :: stack) t
  | .member stack, .closeBrace => some (.complete (.object []) stack)
  | .member stack, .string s => some (.colon [] s stack)
  | .name members stack, .string s => some (.colon members s stack)
  | .colon members name stack, .colon => some (.value (.object members name :: stack))
  | .complete v stack, t => afterValue v stack t
  | _, _ => none

def run (s : State) : List Token → Option State
  | [] => some s
  | t :: ts => (step s t).bind (run · ts)

def ofTokens? (ts : List Token) : Option Written :=
  match run (.value []) ts with
  | some (.complete v []) => some v
  | _ => none

def read? (text : String) : Option Written :=
  (tokens? text).bind ofTokens?

@[simp] theorem run_append (s : State) (ts us : List Token) :
    run s (ts ++ us) = (run s ts).bind (run · us) := by
  induction ts generalizing s with
  | nil => rfl
  | cons t ts ih =>
    simp only [List.cons_append, run]
    cases step s t with
    | none => rfl
    | some s' => exact ih s'

end Written

end Yang.Json
