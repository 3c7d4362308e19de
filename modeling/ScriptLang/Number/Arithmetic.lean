import ScriptLang.Number.Binary64

/-!
# Arithmetic that needs a word of its own

Powers of ten by repeated squaring, in floating point throughout, so that every step
rounds; integer powers that wrap around at 64 bits; integers as floating-point
numbers; the remainder of a floating-point division, which is exact; and the
comparison of floating-point numbers, under which a not-a-number has no order.
-/

namespace ScriptLang.Number

/-- `result · base ^ k` by repeated squaring, rounded at each product. -/
def squaring (result base : Float) (k : Nat) : Float :=
  if k = 0 then result
  else
    let result := if k % 2 = 1 then result * base else result
    if k / 2 = 0 then result else squaring result (base * base) (k / 2)
termination_by k

/-- `10 ^ e`; a negative power is the reciprocal of the positive one. -/
def powerOfTen (e : Int) : Float :=
  let power := squaring 1 10 e.natAbs
  if e < 0 then 1 / power else power

/-- `result · base ^ k`, wrapping around at 64 bits. -/
def wrappingPower (result base : Int64) (k : Nat) : Int64 :=
  if k = 0 then result
  else
    wrappingPower (if k % 2 = 1 then result * base else result) (base * base)
      (k / 2)
termination_by k

/-- The nearest floating-point number to an integer. -/
def ofInt64 (i : Int64) : Float :=
  if i < 0 then -(-i).toUInt64.toFloat else i.toUInt64.toFloat

/-- The remainder of a division that rounds toward zero: exact, with the sign of the
dividend. -/
def remainder (x y : Float) : Float :=
  match Binary64.ofFloat? x, Binary64.ofFloat? y with
  | none, _ => 0 / 0
  | some _, none => if y.isNaN then 0 / 0 else x
  | some a, some b =>
    if b.mantissa = 0 then 0 / 0
    else
      let exponent := min a.exponent b.exponent
      let dividend := a.mantissa * Nat.pow 2 (a.exponent - exponent).toNat
      let divisor := b.mantissa * Nat.pow 2 (b.exponent - exponent).toNat
      let magnitude := Float.scaleB (dividend % divisor).toFloat exponent
      if a.negative then -magnitude else magnitude

/-- The order of two numbers, if they have one. -/
def order? (x y : Float) : Option Ordering :=
  if x < y then some .lt
  else if x == y then some .eq
  else if y < x then some .gt
  else none

/-- The lesser of two numbers, and the second of two equal ones; a not-a-number
gives way to the other. -/
def lesser (x y : Float) : Float := if y.isNaN then x else if x < y then x else y

/-- The greater of two numbers, and the second of two equal ones; a not-a-number
gives way to the other. -/
def greater (x y : Float) : Float := if y.isNaN then x else if y < x then x else y

end ScriptLang.Number
