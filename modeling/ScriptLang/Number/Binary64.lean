/-!
# What a floating-point number is

A finite floating-point number is `mantissa · 2 ^ exponent` with a sign.
`Binary64.ofFloat?` reads the three parts off the bit pattern; the other bit
patterns are the infinities and the not-a-number.  Everything this library does
exactly with floating-point numbers (their decimal digits, the remainder of a
division) it does with these natural numbers.
-/

namespace ScriptLang

/-- The parts of a finite floating-point number. -/
structure Binary64 where
  negative : Bool
  mantissa : Nat
  exponent : Int
deriving DecidableEq, Repr

namespace Binary64

/-- The parts of a finite number; `none` for the infinities and the not-a-number. -/
def ofFloat? (x : Float) : Option Binary64 :=
  let bits := x.toBits.toNat
  let negative := 0x8000000000000000 ≤ bits
  let biased : Nat := bits / 0x10000000000000 % 0x800
  let fraction : Nat := bits % 0x10000000000000
  if biased = 2047 then none
  else if biased = 0 then some ⟨negative, fraction, -1074⟩
  else some ⟨negative, 0x10000000000000 + fraction, (biased : Int) - 1075⟩

/-- Whether the bit pattern of a number has its sign bit set. -/
def isNegative (x : Float) : Bool := 0x8000000000000000 ≤ x.toBits.toNat

/-- The magnitude as a fraction of natural numbers, numerator first. -/
def magnitude (b : Binary64) : Nat × Nat :=
  if 0 ≤ b.exponent then (b.mantissa * Nat.pow 2 b.exponent.toNat, 1)
  else (b.mantissa, Nat.pow 2 (-b.exponent).toNat)

/-- Whether the number is whole. -/
def isWhole (b : Binary64) : Bool :=
  let (num, den) := b.magnitude
  num % den == 0

/-- The magnitude of a whole number. -/
def whole (b : Binary64) : Nat :=
  let (num, den) := b.magnitude
  num / den

end Binary64

end ScriptLang
