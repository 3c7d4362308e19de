import ScriptLang.Number.Shortest

/-!
# Numbers as text

Two written forms of a floating-point number.  `plain` gives the fewest digits that
read back and never an exponent.  `pointed` differs on whole numbers: these are
written out digit by digit, exactly, with one zero after the point, so that they can
be told from integers.
-/

namespace ScriptLang.Number

/-- The minus sign of a negative number, which zero may also carry. -/
def sign (negative : Bool) : String := if negative then "-" else ""

/-- The infinities and the not-a-number. -/
def special (x : Float) : String :=
  if x.isNaN then "NaN" else sign (Binary64.isNegative x) ++ "inf"

/-- The fewest digits that read back, without an exponent. -/
def plain (x : Float) : String :=
  match Binary64.ofFloat? x with
  | none => special x
  | some b => sign b.negative ++ (Decimal.shortest b).positional

/-- A whole number exactly and with one place, any other number as `plain`. -/
def pointed (x : Float) : String :=
  match Binary64.ofFloat? x with
  | none => special x
  | some b =>
    if b.isWhole then sign b.negative ++ toString b.whole ++ ".0"
    else sign b.negative ++ (Decimal.shortest b).positional

end ScriptLang.Number
