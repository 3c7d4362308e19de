import ScriptLang.Number.Binary64

/-!
# The fewest digits that read back

Every floating-point number stands for an interval: all reals that are nearer to it
than to its two neighbours, with the two ends when its mantissa is even.  Among the
decimals in this interval, `Decimal.shortest` chooses one with the fewest digits, of
those the nearest to the number, and the larger one when two are equally near.

The search goes over grids of 1, 2, … digits.  On a grid only the two points around
the number can be the answer, because a point of the interval that is not next to
the number has one between them.
-/

namespace ScriptLang

/-- The decimal `digits · 10 ^ exponent`. -/
structure Decimal where
  digits : Nat
  exponent : Int
deriving DecidableEq, Repr

namespace Decimal

/-- The fraction `num / den` divided by `10 ^ e`. -/
def scaleDown (num den : Nat) (e : Int) : Nat × Nat :=
  if 0 ≤ e then (num, den * Nat.pow 10 e.toNat)
  else (num * Nat.pow 10 (-e).toNat, den)

/-- The number of zeros between the point and the first digit of `num / den`, for a
fraction below one. -/
def leadingZeros : Nat → Nat → Nat → Nat
  | 0, _, _ => 0
  | fuel + 1, num, den =>
      if num * 10 < den then leadingZeros fuel (num * 10) den + 1 else 0

/-- The least power of ten above `num / den`. -/
def magnitude (num den : Nat) : Int :=
  if den ≤ num then ((Nat.toDigits 10 (num / den)).length : Int)
  else -((leadingZeros 400 num den : Nat) : Int)

/-- The reals that read back as one number: `low`, the number and `high`, all over
`den`. -/
structure Interval where
  low : Nat
  value : Nat
  high : Nat
  den : Nat
  closed : Bool
deriving Repr

/-- The interval of a finite number. -/
def Interval.of (b : Binary64) : Interval :=
  let below := if b.mantissa = 0x10000000000000 ∧ -1074 < b.exponent then 1 else 2
  let (scale, den) :=
    if 2 ≤ b.exponent then (Nat.pow 2 (b.exponent - 2).toNat, 1)
    else (1, Nat.pow 2 (2 - b.exponent).toNat)
  { low := (4 * b.mantissa - below) * scale
    value := 4 * b.mantissa * scale
    high := (4 * b.mantissa + 2) * scale
    den := den
    closed := b.mantissa % 2 = 0 }

/-- Whether the point `digits · 10 ^ e` lies in an interval. -/
def Interval.contains (i : Interval) (digits : Nat) (e : Int) : Bool :=
  let (point, scale) :=
    if 0 ≤ e then (digits * Nat.pow 10 e.toNat * i.den, 1)
    else (digits * i.den, Nat.pow 10 (-e).toNat)
  if i.closed then decide (i.low * scale ≤ point ∧ point ≤ i.high * scale)
  else decide (i.low * scale < point ∧ point < i.high * scale)

/-- The answer on the grid of multiples of `10 ^ e`, if the grid has one. -/
def onGrid? (i : Interval) (e : Int) : Option Nat :=
  let (num, den) := scaleDown i.value i.den e
  let below := num / den
  let above := below + 1
  match i.contains below e, i.contains above e with
  | true, true => some (if 2 * (num % den) < den then below else above)
  | true, false => some below
  | false, true => some above
  | false, false => none

/-- The answer on the first grid that has one. -/
def search (i : Interval) : Nat → Int → Decimal
  | 0, e => ⟨(scaleDown i.value i.den e).1 / (scaleDown i.value i.den e).2, e⟩
  | fuel + 1, e =>
    match onGrid? i e with
    | some digits => ⟨digits, e⟩
    | none => search i fuel (e - 1)

/-- The same decimal without a zero at its end: the point above a row of nines ends
in one. -/
def withoutEndZero (d : Decimal) : Decimal :=
  if d.digits ≠ 0 ∧ d.digits % 10 = 0 then ⟨d.digits / 10, d.exponent + 1⟩ else d

/-- A decimal with the fewest digits that reads back as the given number. -/
def shortest (b : Binary64) : Decimal :=
  if b.mantissa = 0 then ⟨0, 0⟩
  else
    let i := Interval.of b
    (search i 17 (magnitude i.value i.den - 1)).withoutEndZero

/-- The digits of a decimal with a point in their place and no exponent. -/
def positional (d : Decimal) : String :=
  let digits := Nat.toDigits 10 d.digits
  if 0 ≤ d.exponent then
    String.ofList (digits ++ List.replicate d.exponent.toNat '0')
  else
    let places := (-d.exponent).toNat
    let padded := List.replicate (places + 1 - digits.length) '0' ++ digits
    let whole := padded.length - places
    String.ofList (padded.take whole ++ '.' :: padded.drop whole)

end Decimal

end ScriptLang
