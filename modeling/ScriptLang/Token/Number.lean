import ScriptLang.Number.Arithmetic
import ScriptLang.Token.Digits

/-!
# Number literals

A zero followed by a letter other than the exponent marks begins a number in another
radix.  All other numbers are decimal: digits, an optional fraction when a digit
follows the point, and an optional exponent.  The fraction and the exponent make a
floating-point number, which is put together from its parts with rounded powers of
ten.
-/

namespace ScriptLang

/-- What one reader of the lexer found: a lexeme, the errors in the order in which
they came up, the warnings, and the cursor behind the lexeme. -/
structure Reading where
  lexeme : Lexeme
  errors : List (Located LexicalError) := []
  warnings : List (Located LexicalWarning) := []
  behind : Cursor

/-- The radix that a letter after a leading zero announces. -/
def radixOf? : Char → Option Nat
  | 'x' => some 16
  | 'c' => some 8
  | 'b' => some 2
  | _ => none

/-- Whether a number in another radix begins at the cursor. -/
def startsWithRadix (c : Cursor) : Bool :=
  c.current? == some '0' &&
    (match c.next? with
     | some mark => Character.isAlphabetic mark && mark != 'e' && mark != 'E'
     | none => false)

/-- Reads a number in another radix; after an unknown mark the digits are
hexadecimal. -/
def readRadixNumber (limit : Nat) (c : Cursor) : Reading :=
  let marked := c.advance
  let mark := marked.current?.getD 'x'
  let radix := (radixOf? mark).getD 16
  let (run, behind) := marked.advance.run (Character.isDigitOf radix)
  let digits := DigitRun.read radix limit 0 run
  let badMark :=
    if (radixOf? mark).isSome then []
    else [⟨.invalidRadixMark mark, marked.position⟩]
  let missing :=
    if digits.counted = 0 then [⟨.missingRadixDigits, behind.position⟩] else []
  { lexeme := .integer (UInt64.ofNat digits.value)
    errors := badMark ++ digits.errors ++ missing
    behind }

/-- The largest magnitude of an exponent; a larger one is taken for this one. -/
def exponentLimit : Nat := 0x7fffffff

/-- Reads an optional sign and the digits of an exponent. -/
def readExponent (c : Cursor) : Option Int × List (Located LexicalError) × Cursor :=
  let negative := c.current? == some '-'
  let unsigned := if negative || c.current? == some '+' then c.advance else c
  let (run, behind) := unsigned.run (Character.isDigitOf 10)
  if run.isEmpty then (none, [⟨.missingExponent, behind.position⟩], behind)
  else
    let value :=
      run.foldl (fun n d => n * 10 + (Character.digit? 10 d.char).getD 0) 0
    let magnitude := min value exponentLimit
    (some (if negative then -(magnitude : Int) else magnitude), [], behind)

/-- The number with the given digits before and after the point, the latter `places`
in number. -/
def composeFloat (integral fractional : UInt64) (places : Nat)
    (exponent : Option Int) : Float :=
  match exponent with
  | none => integral.toFloat + fractional.toFloat / Number.powerOfTen places
  | some e =>
    integral.toFloat * Number.powerOfTen e +
      fractional.toFloat * Number.powerOfTen (max (e - places) (-0x80000000))

/-- The digits after a point at the cursor; a point without a digit after it is no
part of a number. -/
def fractionRun (c : Cursor) : List Placed × Cursor :=
  if c.current? == some '.' && c.next?.any (Character.isDigitOf 10) then
    c.advance.run (Character.isDigitOf 10)
  else ([], c)

/-- The exponent behind a mark at the cursor, if there is a mark. -/
def exponentPart? (c : Cursor) :
    Option (Option Int × List (Located LexicalError) × Cursor) :=
  if c.current? == some 'e' || c.current? == some 'E' then
    some (readExponent c.advance)
  else none

/-- Reads a decimal number. -/
def readDecimalNumber (limit : Nat) (c : Cursor) : Reading :=
  let (run, afterIntegral) := c.run (Character.isDigitOf 10)
  let (places, afterFraction) := fractionRun afterIntegral
  let integral := DigitRun.read 10 limit 0 run
  let fraction := DigitRun.read 10 limit run.length places
  let errors := integral.errors ++ fraction.errors
  let compose :=
    composeFloat (UInt64.ofNat integral.value) (UInt64.ofNat fraction.value)
    fraction.counted
  match exponentPart? afterFraction with
  | some (exponent, exponentErrors, behind) =>
    { lexeme := .float (compose exponent)
      errors := errors ++ exponentErrors
      behind }
  | none =>
    { lexeme := if places.isEmpty then .integer (UInt64.ofNat integral.value)
        else .float (compose none)
      errors
      behind := afterFraction }

/-- Reads a number. -/
def readNumber (limit : Nat) (c : Cursor) : Reading :=
  if startsWithRadix c then readRadixNumber limit c else readDecimalNumber limit c

end ScriptLang
