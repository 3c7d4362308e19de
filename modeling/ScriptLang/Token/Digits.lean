import ScriptLang.Character.Classes
import ScriptLang.Source.Cursor
import ScriptLang.Token.Basic

/-!
# Limits on what a token keeps

Of a whole lexeme, `content` is what a limit keeps and `overrun` the error at the
first character beyond.  The lexer counts the characters one at a time
(`Lexer.allow`), and comes to these in the end (`Draft.Keeps`).

For the digits of a number there is a second limit, the 64 bits of the value.
`longestFit` keeps the longest beginning of a digit string whose value fits, and
`DigitRun.read` combines both limits.  The loop over the digits is
`Accumulator.accumulate`, and it gives this answer
(`Accumulator.accumulate_eq_read`).
-/

namespace ScriptLang

/-- The characters of a lexeme that the limit keeps. -/
def content (limit : Nat) (items : List Placed) : String :=
  String.ofList ((items.take limit).map Placed.char)

/-- The error at the first character that the limit drops. -/
def overrun (limit : Nat) (items : List Placed) : List (Located LexicalError) :=
  match items[limit]? with
  | some item => [⟨.lexemeTooLong limit, item.position⟩]
  | none => []

/-- The value and the length of the longest beginning of a digit string whose value,
read after `value`, fits in 64 bits. -/
def longestFit (radix : Nat) : Nat → List Nat → Nat × Nat
  | value, [] => (value, 0)
  | value, d :: rest =>
    if value * radix + d < UInt64.size then
      let (final, count) := longestFit radix (value * radix + d) rest
      (final, count + 1)
    else (value, 0)

/-- A digit is counted if the value with it fits. -/
theorem longestFit_cons (radix value d : Nat) (rest : List Nat) :
    longestFit radix value (d :: rest) =
      if value * radix + d < UInt64.size then
        ((longestFit radix (value * radix + d) rest).1,
          (longestFit radix (value * radix + d) rest).2 + 1)
      else (value, 0) := rfl

/-- What a run of digits gives: the value of the digits that were kept, their
number, and the errors in the order in which they come up. -/
structure DigitRun where
  value : Nat
  counted : Nat
  errors : List (Located LexicalError)
deriving DecidableEq, Repr

namespace DigitRun

/-- Reads a run of digits of which `used` characters of the same token came
before. -/
def read (radix limit used : Nat) (run : List Placed) : DigitRun :=
  let room := limit - used
  let kept := run.take room
  let (value, counted) :=
    longestFit radix 0 (kept.filterMap fun p => Character.digit? radix p.char)
  let tooLarge :=
    match kept[counted]? with
    | some item => [⟨.numberTooLarge, item.position⟩]
    | none => []
  let tooLong :=
    match run[room]? with
    | some item =>
        if used ≤ limit then [⟨.lexemeTooLong limit, item.position⟩] else []
    | none => []
  ⟨value, counted, tooLarge ++ tooLong⟩

end DigitRun

end ScriptLang
