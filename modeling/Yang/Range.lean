import Yang.Interval

/-!
# Range restrictions

A range restricts the values of a numeric type to a sequence of intervals. Intervals
are added in ascending order: each begins strictly past the end of the one before it.
The text of a range names its intervals between bars, and `min` and `max` stand for
the bounds of what is restricted further, which a new range must not exceed.
-/

namespace Yang

/-- The range statement of a type, with what the module says about it. -/
structure Range where
  intervals : List Interval := []
  expression : Option String := none
  description : Option String := none
  reference : Option String := none
  location : Option Location := none

namespace Range

def text (r : Range) : String := " | ".intercalate (r.intervals.map Interval.text)

def least (r : Range) : Except Error Value :=
  match r.intervals.head? with
  | some i => .ok i.start
  | none => .error (.emptyRestriction .noBound r.location)

def greatest (r : Range) : Except Error Value :=
  match r.intervals.getLast? with
  | some i => .ok i.stop
  | none => .error (.emptyRestriction .noBound r.location)

/-- An interval may follow: it begins strictly past the last one. Adjacent
intervals are kept apart, and so are intervals whose bounds do not compare. -/
def admits (r : Range) (i : Interval) : Bool :=
  match r.intervals.getLast? with
  | some last => i.start.compare? last.stop == some .gt
  | none => true

def add (r : Range) (i : Interval) : Except Error Range :=
  if r.admits i then .ok { r with intervals := r.intervals ++ [i] }
  else .error (.outOfOrder (.notAscending i.text) r.location)

/-- The range of the given intervals, which must be in order. -/
def ofIntervals (intervals : List Interval) : Except Error Range :=
  intervals.foldlM add {}

def holds (r : Range) (v : Value) : Bool := r.intervals.any (·.contains v)

/-- The value lies in one of the intervals, of which there must be one. -/
def isValid (r : Range) (v : Value) : Except Error Bool :=
  if r.intervals.isEmpty then .error (.emptyRestriction .noInterval r.location)
  else .ok (r.holds v)

/-- The literal, read with the type of the least bound, denotes a value in one
of the intervals. The range itself knows no type, so its own bounds have to tell
it. -/
def isValidLiteral (r : Range) (raw : String) : Except Error Bool := do
  let least ← r.least
  let v ← Value.parse raw least.type
  r.isValid v

def checkInterval (r : Range) (i : Interval) : Except Error Unit :=
  if r.intervals.isEmpty then .error (.emptyRestriction .noInterval r.location)
  else if r.intervals.any (·.covers i) then .ok ()
  else .error (.wider i.text r.text r.location)

def check (r : Range) (v : Value) : Except Error Unit := do
  if ← r.isValid v then return ()
  else throw (.outsideRange v.literal r.text)

/-- The bound written in a range whose `min` and `max` have the given values. -/
def bound (type : Builtin) (least greatest : Value) (token : String) : Except Error Value :=
  if token = "min" then .ok least
  else if token = "max" then .ok greatest
  else Value.parse token type

def interval (type : Builtin) (least greatest : Value) (part : String) :
    Except Error Interval :=
  match Text.cutText? ".." part with
  | some (a, b) => do
    let start ← bound type least greatest (Text.trim a)
    let stop ← bound type least greatest (Text.trim b)
    Interval.of start stop
  | none => do
    let v ← bound type least greatest part
    Interval.single v

/-- The bounds for which `min` and `max` stand: those of the inherited range, or
of the type if no range is inherited. -/
def extremes (bounds : Value × Value) : Option Range → Except Error (Value × Value)
  | some inherited => do
    let least ← inherited.least
    let greatest ← inherited.greatest
    return (least, greatest)
  | none => .ok bounds

def addParts (type : Builtin) (least greatest : Value) (r : Range) :
    List String → Except Error Range
  | [] => .ok r
  | part :: rest => do
    let i ← interval type least greatest (Text.trim part)
    let next ← r.add i
    addParts type least greatest next rest

def checkNarrower (r : Range) : Option Range → Except Error Unit
  | some inherited => r.intervals.forM inherited.checkInterval
  | none => .ok ()

/-- The range written by an expression for a type. It may only narrow the
inherited range, which also gives `min` and `max` their meaning. -/
def parse (expression : String) (type : Builtin) (inherited : Option Range) :
    Except Error Range :=
  match Value.bounds? type with
  | none => .error (.literal (.notRangeable type.text))
  | some bounds => do
    let (least, greatest) ← extremes bounds inherited
    let r ← addParts type least greatest { expression := some expression }
      (Text.parts '|' expression)
    r.checkNarrower inherited
    return r

/-- The two have equal intervals and say the same about them. -/
def same (r s : Range) : Bool :=
  r.intervals.length == s.intervals.length &&
    (r.intervals.zip s.intervals).all (fun (i, j) => i.same j) &&
    r.expression == s.expression && r.description == s.description &&
    r.reference == s.reference && r.location == s.location

end Range

end Yang
