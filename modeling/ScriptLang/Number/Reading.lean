import ScriptLang.Character.Classes

/-!
# Numbers from text

`integer?` accepts an optional sign and decimal digits that fit 64 bits.  `float?`
accepts an optional sign, decimal digits with an optional point and exponent, and
the words `inf`, `infinity` and `nan` in any case, and rounds a decimal to the
nearest floating-point number, halves to the even neighbour.  Neither accepts
anything else, blanks included.
-/

namespace ScriptLang.Number

open Character

/-- The value of decimal digits read from left to right. -/
def decimalValue (digits : List Char) : Nat :=
  digits.foldl (fun value c => value * 10 + (digit? 10 c).getD 0) 0

/-- An optional sign, and what follows it. -/
def splitSign : List Char → Bool × List Char
  | '-' :: rest => (true, rest)
  | '+' :: rest => (false, rest)
  | text => (false, text)

/-- A 64-bit integer in decimal. -/
def integer? (text : List Char) : Option Int64 :=
  let (negative, digits) := splitSign text
  if digits.isEmpty || !digits.all (isDigitOf 10) then none
  else
    let value : Int :=
      if negative then -(decimalValue digits : Int) else decimalValue digits
    if -0x8000000000000000 ≤ value ∧ value < 0x8000000000000000 then
      some (Int64.ofInt value)
    else none

/-- The exponent part of a decimal: nothing, or a mark, an optional sign and
digits. -/
def exponentPart? : List Char → Option Int
  | [] => some 0
  | mark :: rest =>
    let (negative, digits) := splitSign rest
    if (mark = 'e' ∨ mark = 'E') ∧ !digits.isEmpty ∧ digits.all (isDigitOf 10) then
      some (if negative then -(decimalValue digits : Int) else decimalValue digits)
    else none

/-- The nearest number to `mantissa · 10 ^ exponent`; `places` is the number of
digits of the mantissa, which decides without further work when the result is zero
or infinite. -/
def nearest (mantissa places : Nat) (exponent : Int) : Float :=
  if mantissa = 0 || (places : Int) + exponent < -400 then 0
  else if 400 < exponent then 1 / 0
  else if 0 ≤ exponent then Float.ofScientific mantissa false exponent.toNat
  else Float.ofScientific mantissa true (-exponent).toNat

/-- A decimal without its sign. -/
def decimal? (text : List Char) : Option Float :=
  let whole := text.takeWhile (isDigitOf 10)
  let afterWhole := text.dropWhile (isDigitOf 10)
  let (fraction, rest) :=
    match afterWhole with
    | '.' :: rest => (rest.takeWhile (isDigitOf 10), rest.dropWhile (isDigitOf 10))
    | rest => ([], rest)
  if whole.isEmpty && fraction.isEmpty then none
  else
    match exponentPart? rest with
    | none => none
    | some exponent =>
      let digits := whole ++ fraction
      some
        (nearest (decimalValue digits) digits.length (exponent - fraction.length))

/-- A word for a number that has no digits. -/
def word? (text : List Char) : Option Float :=
  match String.ofList (text.map Char.toLower) with
  | "inf" | "infinity" => some (1 / 0)
  | "nan" => some (0 / 0)
  | _ => none

/-- A floating-point number. -/
def float? (text : List Char) : Option Float :=
  let (negative, unsigned) := splitSign text
  let magnitude := (decimal? unsigned).or (word? unsigned)
  magnitude.map fun x => if negative then -x else x

end ScriptLang.Number
