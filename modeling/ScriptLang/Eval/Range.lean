import ScriptLang.Fault
import ScriptLang.Number.Arithmetic
import ScriptLang.Value.Basic

/-!
# The values of a loop's counter

A range counts from a start by a step as long as its end is not reached; the end is
never among the values.  Three integers make an integer range, and any
floating-point number among them a floating-point one.  A range that cannot take
another step, because the sum would leave 64 bits or would not move, stops.
-/

namespace ScriptLang

/-- What is left of a range. -/
inductive CounterRange
  | ints (next stop step : Int64)
  | floats (next stop step : Float)
deriving DecidableEq, Repr

namespace CounterRange

/-- The range between two bounds, which must be numbers, as must the step; the step
must not be zero. -/
def of (start stop step : Value) : Except Fault CounterRange :=
  match start.float?, stop.float?, step.float? with
  | none, _, _ => .error (.invalidRangeBound start.typeText)
  | _, none, _ => .error (.invalidRangeBound stop.typeText)
  | _, _, none => .error (.invalidRangeBound step.typeText)
  | some a, some b, some c =>
    match start, stop, step with
    | .int a, .int b, .int c =>
      if c = 0 then .error .invalidRangeStep else .ok (.ints a b c)
    | _, _, _ =>
      if c == 0 || c.isNaN then .error .invalidRangeStep else .ok (.floats a b c)

/-- The sum of two integers, if it has 64 bits. -/
def sum? (a b : Int64) : Option Int64 :=
  let sum := a.toInt + b.toInt
  if -0x8000000000000000 ≤ sum ∧ sum < 0x8000000000000000 then
    some (a + b)
  else none

/-- The next value of a range and what is left after it. -/
def next? : CounterRange → Option (Value × CounterRange)
  | .ints next stop step =>
    if if 0 < step then next < stop else stop < next then
      some (.int next, .ints ((sum? next step).getD stop) stop step)
    else none
  | .floats next stop step =>
    if if 0 < step then next < stop else stop < next then
      let sum := next + step
      some (.float next, .floats (if sum == next then stop else sum) stop step)
    else none

end CounterRange

end ScriptLang
