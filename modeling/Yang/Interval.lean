import Yang.Value

/-!
# Intervals

An interval holds the values between two bounds, both included. Its bounds are numbers
in order, of any numeric types, and this is part of the type.
-/

namespace Yang

/-- The values from `start` to `stop`. Both ends are numbers and in order, which
every interval carries with it. -/
structure Interval where
  start : Value
  stop : Value
  ordered : start.isNumeric = true ∧ start.atMost stop = true

namespace Interval

/-- The interval between two values, if they are numbers in order. -/
def of (start stop : Value) : Except Error Interval :=
  if h : start.isNumeric = true ∧ start.atMost stop = true then .ok ⟨start, stop, h⟩
  else .error (.outOfOrder (.reversed start.literal stop.literal) none)

def single (v : Value) : Except Error Interval := of v v

def contains (i : Interval) (v : Value) : Bool := i.start.atMost v && v.atMost i.stop

/-- The second interval lies inside the first. -/
def covers (i j : Interval) : Bool := i.contains j.start && i.contains j.stop

def same (i j : Interval) : Bool := i.start.same j.start && i.stop.same j.stop

/-- The text of an interval: one bound if the two are equal. -/
def text (i : Interval) : String :=
  if i.start.same i.stop then i.start.literal
  else i.start.literal ++ ".." ++ i.stop.literal

end Interval

end Yang
