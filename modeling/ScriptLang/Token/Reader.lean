import ScriptLang.Source.Scanner
import ScriptLang.Token.Number
import ScriptLang.Token.StringBody

/-!
# The lexer, character by character

A `Lexer` holds a scanner and what it has to say about the token it reads: at most
one error, the first that came up (`Lexer.raise`), and its warnings.
`Lexer.advance` reads one token.  No text stops it, and every token but the end of
the text takes at least one character (`Lexer.remaining_advance_lt`).

The readers look at the character at the scanner, deal with it and move on.  Those
that keep the text of a lexeme hold a `Draft`: every character is counted by
`Lexer.allow`, which tells whether the limit has room for it and raises the error at
the first one that has not.  The digits of a number go through the same count into
an `Accumulator`.
-/

namespace ScriptLang

/-- A lexer between two characters of a text. -/
structure Lexer where
  scanner : Scanner
  /-- The longest lexeme that is kept in the content of a token.  The rest is passed
  and dropped. -/
  limit : Nat
  /-- The start of the current token. -/
  start : Position := Position.start
  /-- The error raised while the last token was read. -/
  error : Option (Located LexicalError) := none
  /-- The warnings raised while the last token was read. -/
  warnings : Array (Located LexicalWarning) := #[]

namespace Lexer

/-- The lexer in front of the first token of a text. -/
def ofText (limit : Nat) (source : String) : Lexer :=
  { scanner := .ofText source, limit }

/-- The character at the lexer, if there is one. -/
def current? (l : Lexer) : Option Char := l.scanner.current?

/-- The character behind it, if there is one. -/
def next? (l : Lexer) : Option Char := l.scanner.next?

/-- The place of the lexer. -/
def here (l : Lexer) : Position := l.scanner.position

/-- The number of characters in front of the lexer. -/
def remaining (l : Lexer) : Nat := l.scanner.remaining

/-- Moves on by one character. -/
def step (l : Lexer) : Lexer := { l with scanner := l.scanner.advance }

/-- Raises an error for the current token, unless there is one. -/
def raise (cause : LexicalError) (position : Position) (l : Lexer) : Lexer :=
  if l.error.isNone then { l with error := some ⟨cause, position⟩ } else l

/-- Raises a warning for the current token. -/
def warn (cause : LexicalWarning) (position : Position) (l : Lexer) : Lexer :=
  { l with warnings := l.warnings.push ⟨cause, position⟩ }

/-- Counts one more character of a lexeme against the limit.  Yields whether the
character is kept, and the new count.  The first character that is not kept is an
error. -/
def allow (length : Nat) (l : Lexer) : Bool × Nat × Lexer :=
  if length + 1 ≤ l.limit then (true, length + 1, l)
  else if length + 1 = l.limit + 1 then
    (false, length + 1, l.raise (.lexemeTooLong l.limit) l.here)
  else (false, length + 1, l)

@[simp] theorem scanner_step (l : Lexer) : l.step.scanner = l.scanner.advance := rfl

/-- To raise an error is not to move. -/
@[simp] theorem scanner_raise (cause : LexicalError) (position : Position)
    (l : Lexer) :
    (l.raise cause position).scanner = l.scanner := by
  unfold raise
  split <;> rfl

/-- To warn is not to move. -/
@[simp] theorem scanner_warn (cause : LexicalWarning) (position : Position)
    (l : Lexer) :
    (l.warn cause position).scanner = l.scanner := rfl

/-- To count a character is not to move. -/
@[simp] theorem scanner_allow (length : Nat) (l : Lexer) :
    (l.allow length).2.2.scanner = l.scanner := by
  unfold allow
  split
  · rfl
  · split
    · exact scanner_raise _ _ l
    · rfl

/-- A lexer that passes a character has fewer of them left. -/
theorem remaining_step_lt {l : Lexer} {c : Char} (h : l.current? = some c) :
    l.step.remaining < l.remaining := Scanner.remaining_advance_lt h

theorem remaining_step_le (l : Lexer) : l.step.remaining ≤ l.remaining :=
  Scanner.remaining_advance_le l.scanner

/-- Passes all blanks. -/
def skipBlanks (l : Lexer) : Lexer :=
  match _h : l.current? with
  | none => l
  | some c => if Character.isBlank c then skipBlanks l.step else l
termination_by l.remaining
decreasing_by exact remaining_step_lt _h

end Lexer

/-! ## Texts -/

/-- A lexeme that is being read: what is kept of it, and how many characters it has
so far. -/
structure Draft where
  lexer : Lexer
  content : String := ""
  length : Nat := 0

namespace Draft

/-- Moves on by one character. -/
def step (d : Draft) : Draft := { d with lexer := d.lexer.step }

/-- Counts a character, and keeps it if the limit has room for it. -/
def keep (c : Char) (d : Draft) : Draft :=
  let (kept, length, lexer) := d.lexer.allow d.length
  { lexer, length, content := if kept then d.content.push c else d.content }

/-- The end of the text comes before the end of the lexeme. -/
def breakOff (d : Draft) : Draft :=
  { d with lexer := d.lexer.raise .unexpectedEndOfText d.lexer.here }

/-- To keep a character is not to move. -/
@[simp] theorem scanner_keep (c : Char) (d : Draft) :
    (d.keep c).lexer.scanner = d.lexer.scanner :=
  d.lexer.scanner_allow d.length

/-- A draft that passes a character has fewer of them left. -/
theorem remaining_step_lt {d : Draft} {c : Char} (h : d.lexer.current? = some c) :
    d.step.lexer.remaining < d.lexer.remaining := Lexer.remaining_step_lt h

/-- To keep a character and pass it is to pass it. -/
theorem remaining_keep_step_lt {d : Draft} {c : Char}
    (h : d.lexer.current? = some c) :
    (d.keep c).step.lexer.remaining < d.lexer.remaining := by
  have hscanner : (d.keep c).step.lexer.scanner = d.step.lexer.scanner :=
    congrArg Scanner.advance (d.scanner_keep c)
  rw [Lexer.remaining, hscanner]
  exact remaining_step_lt h

/-- Reads all characters of a class. -/
def keepWhile (p : Char → Bool) (d : Draft) : Draft :=
  match _h : d.lexer.current? with
  | none => d
  | some c => if p c then keepWhile p (d.keep c).step else d
termination_by d.lexer.remaining
decreasing_by exact remaining_keep_step_lt _h

/-- Whether a block comment closes at a lexer. -/
def atCommentEnd (l : Lexer) : Bool := l.current? == some '*' && l.next? == some '/'

/-- Reads a block comment up to its closer. -/
def keepComment (d : Draft) : Draft :=
  match _h : d.lexer.current? with
  | none => d.breakOff
  | some c =>
      if atCommentEnd d.lexer then d.step.step else keepComment (d.keep c).step
termination_by d.lexer.remaining
decreasing_by exact remaining_keep_step_lt _h

end Draft

/-! ## Numbers -/

/-- A product, unless it takes more than 64 bits. -/
def Number.mul? (a b : UInt64) : Option UInt64 :=
  if a.toNat * b.toNat < UInt64.size then some (a * b) else none

/-- A sum, unless it takes more than 64 bits. -/
def Number.add? (a b : UInt64) : Option UInt64 :=
  if a.toNat + b.toNat < UInt64.size then some (a + b) else none

/-- A run of digits that is being read: the value of the digits counted so far and
their number, whether a digit was too much for the value, and how many characters
the token has so far. -/
structure Accumulator where
  lexer : Lexer
  length : Nat := 0
  value : UInt64 := 0
  counted : Nat := 0
  overflowed : Bool := false

namespace Accumulator

/-- Moves on by one character. -/
def step (a : Accumulator) : Accumulator := { a with lexer := a.lexer.step }

/-- Counts a digit, and adds it to the value if the limit has room for it and no
digit has been too much before.  The first one that is too much is an error. -/
def count (radix d : Nat) (a : Accumulator) : Accumulator :=
  let (kept, length, lexer) := a.lexer.allow a.length
  if kept && !a.overflowed then
    match (Number.mul? a.value radix.toUInt64).bind
        fun value => Number.add? value d.toUInt64 with
    | some value => { a with lexer, length, value, counted := a.counted + 1 }
    | none =>
        { a with
          lexer := lexer.raise .numberTooLarge lexer.here
          length
          overflowed := true }
  else { a with lexer, length }

/-- To count a digit is not to move. -/
@[simp] theorem scanner_count (radix d : Nat) (a : Accumulator) :
    (a.count radix d).lexer.scanner = a.lexer.scanner := by
  unfold count
  dsimp only
  split
  · split
    · exact a.lexer.scanner_allow a.length
    · exact (Lexer.scanner_raise _ _ _).trans (a.lexer.scanner_allow a.length)
  · exact a.lexer.scanner_allow a.length

/-- To count a digit and pass it is to pass it. -/
theorem remaining_count_step_lt {radix d : Nat} {a : Accumulator}
    (h : a.lexer.current?.bind (Character.digit? radix) = some d) :
    (a.count radix d).step.lexer.remaining < a.lexer.remaining := by
  obtain ⟨c, hc, _⟩ := Option.bind_eq_some_iff.mp h
  have hscanner : (a.count radix d).step.lexer.scanner = a.lexer.step.scanner :=
    congrArg Scanner.advance (a.scanner_count radix d)
  rw [Lexer.remaining, hscanner]
  exact Lexer.remaining_step_lt hc

/-- Reads all digits of a radix. -/
def accumulate (radix : Nat) (a : Accumulator) : Accumulator :=
  match _h : a.lexer.current?.bind (Character.digit? radix) with
  | none => a
  | some d => accumulate radix (a.count radix d).step
termination_by a.lexer.remaining
decreasing_by exact remaining_count_step_lt _h

/-- The reader of a run of digits never goes back. -/
theorem remaining_accumulate_le (radix : Nat) (a : Accumulator) :
    (a.accumulate radix).lexer.remaining ≤ a.lexer.remaining := by
  fun_induction accumulate radix a with
  | case1 => exact Nat.le_refl _
  | case2 a d h ih =>
      exact Nat.le_trans ih (Nat.le_of_lt (remaining_count_step_lt h))

end Accumulator

namespace Lexer

/-- Reads a number in another radix; after an unknown mark the digits are
hexadecimal. -/
def readRadixNumber (l : Lexer) : Lexeme × Lexer :=
  let marked := l.step
  let mark := marked.current?.getD 'x'
  let (radix, l) :=
    match radixOf? mark with
    | some radix => (radix, marked.step)
    | none => (16, marked.step.raise (.invalidRadixMark mark) marked.here)
  let digits := Accumulator.accumulate radix { lexer := l }
  let l := digits.lexer
  (.integer digits.value,
    if digits.counted = 0 then l.raise .missingRadixDigits l.here else l)

/-- Reads the digits of an exponent.  Yields its magnitude, which stops at the
largest one, and the number of digits. -/
def readMagnitude (magnitude digits : Nat) (l : Lexer) : Nat × Nat × Lexer :=
  match _h : l.current?.bind (Character.digit? 10) with
  | none => (magnitude, digits, l)
  | some d =>
    readMagnitude (min (min (magnitude * 10) exponentLimit + d) exponentLimit)
      (digits + 1) l.step
termination_by l.remaining
decreasing_by
  obtain ⟨c, hc, _⟩ := Option.bind_eq_some_iff.mp _h
  exact remaining_step_lt hc

/-- Reads an optional sign and the digits of an exponent. -/
def readExponent (l : Lexer) : Option Int × Lexer :=
  let negative := l.current? == some '-'
  let l := if negative || l.current? == some '+' then l.step else l
  let (magnitude, digits, l) := readMagnitude 0 0 l
  if digits = 0 then (none, l.raise .missingExponent l.here)
  else (some (if negative then -(magnitude : Int) else magnitude), l)

/-- Reads a decimal number.  The digits before and after the point are counted
together. -/
def readDecimalNumber (l : Lexer) : Lexeme × Lexer :=
  let integral := Accumulator.accumulate 10 { lexer := l }
  let l := integral.lexer
  let pointed := l.current? == some '.' && l.next?.any (Character.isDigitOf 10)
  let fraction : Accumulator :=
    if pointed then
      Accumulator.accumulate 10 { lexer := l.step, length := integral.length }
    else { lexer := l }
  let l := fraction.lexer
  let compose := composeFloat integral.value fraction.value fraction.counted
  if l.current? == some 'e' || l.current? == some 'E' then
    let (exponent, l) := l.step.readExponent
    (.float (compose exponent), l)
  else if pointed then (.float (compose none), l)
  else (.integer integral.value, l)

/-- Reads a number. -/
def readNumber (l : Lexer) : Lexeme × Lexer :=
  if l.current? == some '0' &&
      l.next?.any (fun mark =>
        Character.isAlphabetic mark && mark != 'e' && mark != 'E') then
    l.readRadixNumber
  else l.readDecimalNumber

/-! ## Strings -/

/-- Reads at most `room` hexadecimal digits.  Yields their value, read on from
`code`, and their number, counted on from `digits`. -/
def readHexDigits : Nat → Nat → Nat → Lexer → Nat × Nat × Lexer
  | 0, code, digits, l => (code, digits, l)
  | room + 1, code, digits, l =>
    match l.current?.bind (Character.digit? 16) with
    | none => (code, digits, l)
    | some d => readHexDigits room (code * 16 + d) (digits + 1) l.step

/-- Reads up to four hexadecimal digits as the code of a character. -/
def readCharCode (l : Lexer) : Char × Lexer :=
  let (code, digits, l) := readHexDigits 4 0 0 l
  (charOfCode code, if digits = 0 then l.warn .missingCharCode l.here else l)

/-- Reads what follows a backslash; at the end of the text this is nothing. -/
def readEscape (l : Lexer) : Option Char × Lexer :=
  match l.current? with
  | none => (none, l)
  | some c =>
    if c = 'x' then
      let (decoded, l) := l.step.readCharCode
      (some decoded, l)
    else
      match escape? c with
      | some decoded => (some decoded, l.step)
      | none => (some c, l.step.warn (.unknownEscape c) l.here)

/-- The reader of the code of a character never goes back. -/
theorem remaining_readHexDigits_le (room code digits : Nat) (l : Lexer) :
    (readHexDigits room code digits l).2.2.remaining ≤ l.remaining := by
  fun_induction readHexDigits room code digits l with
  | case1 => exact Nat.le_refl _
  | case2 => exact Nat.le_refl _
  | case3 _ _ l _ _ _ ih => exact Nat.le_trans ih (remaining_step_le _)

/-- The reader of an escape sequence never goes back. -/
theorem remaining_readEscape_le (l : Lexer) :
    l.readEscape.2.remaining ≤ l.remaining := by
  unfold readEscape
  split
  · exact Nat.le_refl _
  · split
    · have hle :=
        Nat.le_trans (remaining_readHexDigits_le 4 0 0 l.step) (remaining_step_le l)
      unfold readCharCode
      dsimp only
      split <;> exact hle
    · split <;> exact remaining_step_le l

end Lexer

/-- A draft whose lexer has gone on. -/
def Draft.resume (lexer : Lexer) (d : Draft) : Draft := { d with lexer }

/-- An escape sequence takes at least its backslash. -/
theorem Draft.remaining_escape_lt {d : Draft} {c : Char}
    (h : d.lexer.current? = some c) :
    d.lexer.step.readEscape.2.remaining < d.lexer.remaining :=
  Nat.lt_of_le_of_lt (Lexer.remaining_readEscape_le _) (Lexer.remaining_step_lt h)

theorem Draft.remaining_keep (c : Char) (d : Draft) :
    (d.keep c).lexer.remaining = d.lexer.remaining :=
  congrArg Scanner.remaining (d.scanner_keep c)

/-- Reads a string literal behind its opening quote. -/
def Draft.keepString (d : Draft) : Draft :=
  match _h : d.lexer.current? with
  | none => d.breakOff
  | some c =>
    if c = '"' then d.step
    else if c = '\\' then
      let escape := d.lexer.step.readEscape
      match escape.1 with
      | none => keepString (d.resume escape.2)
      | some decoded => keepString ((d.resume escape.2).keep decoded)
    else keepString (d.keep c).step
termination_by d.lexer.remaining
decreasing_by
  · exact remaining_escape_lt _h
  · rw [remaining_keep]
    exact remaining_escape_lt _h
  · exact remaining_keep_step_lt _h

namespace Lexer

/-! ## Comments, words and symbols -/

/-- Reads a word: a reserved one, or a name. -/
def readWord (l : Lexer) : Lexeme × Lexer :=
  let d := Draft.keepWhile Character.isWordPart { lexer := l }
  match Keyword.ofText? d.content with
  | some word => (.keyword word, d.lexer)
  | none => (.identifier d.content, d.lexer)

/-- Reads a line comment behind its opener. -/
def readLineComment (l : Lexer) : Lexeme × Lexer :=
  let d := Draft.keepWhile (· != '\n') { lexer := l }
  (.lineComment d.content, d.lexer)

/-- Reads a block comment behind its opener. -/
def readBlockComment (l : Lexer) : Lexeme × Lexer :=
  let d := Draft.keepComment { lexer := l }
  (.blockComment d.content, d.lexer)

/-- Reads a string literal. -/
def readString (l : Lexer) : Lexeme × Lexer :=
  let d := Draft.keepString { lexer := l.step }
  (.string d.content, d.lexer)

/-- The symbol with the spelling that has been read, if there is one. -/
def finishSymbol (text : List Char) (l : Lexer) : Lexeme × Lexer :=
  match Symbol.ofChars? text with
  | some sign => (.symbol sign, l)
  | none =>
    (.unknown (String.ofList text),
      l.raise (.unknownToken (String.ofList text)) l.start)

/-- Reads a symbol or a comment, of which `text` has been read.  The opener of a
comment is not read on. -/
def readSymbol (text : List Char) (l : Lexer) : Lexeme × Lexer :=
  match _h : l.current? with
  | none => l.finishSymbol text
  | some c =>
    if Symbol.isLive (text ++ [c]) then
      if text ++ [c] = Symbol.lineComment then l.step.readLineComment
      else if text ++ [c] = Symbol.blockComment then l.step.readBlockComment
      else readSymbol (text ++ [c]) l.step
    else l.finishSymbol text
termination_by l.remaining
decreasing_by exact remaining_step_lt _h

/-- Reads a character that begins no token of the language. -/
def readUnknown (c : Char) (l : Lexer) : Lexeme × Lexer :=
  (.unknown c.toString, l.step.raise (.unknownToken c.toString) l.start)

/-- Reads the token that begins with the given character, which is at the lexer. -/
def readFrom (c : Char) (l : Lexer) : Lexeme × Lexer :=
  if Symbol.isLive [c] then l.readSymbol []
  else if Character.isAlphabetic c then l.readWord
  else if Character.isDigitOf 10 c then l.readNumber
  else if c = '"' then l.readString
  else l.readUnknown c

/-- A lexer that is about to read a token: nothing has been raised for it, and it
begins behind the blanks. -/
def begin (l : Lexer) : Lexer :=
  let l := skipBlanks { l with error := none, warnings := #[] }
  { l with start := l.here }

/-- Reads the next token. -/
def advance (l : Lexer) : Token × Lexer :=
  let l := l.begin
  match l.current? with
  | none => (⟨.endOfText, Span.point l.start⟩, l)
  | some c =>
    let (lexeme, l) := l.readFrom c
    (⟨lexeme, ⟨l.start, l.here⟩⟩, l)

/-- What was raised for the token that was read last. -/
def notes (l : Lexer) : Notes := ⟨l.error, l.warnings.toList⟩

/-! ## Progress -/

variable {l l' : Lexer} {c : Char}

theorem remaining_raise (cause : LexicalError) (position : Position) (l : Lexer) :
    (l.raise cause position).remaining = l.remaining :=
  congrArg Scanner.remaining (scanner_raise cause position l)

theorem remaining_skipBlanks_le (l : Lexer) :
    l.skipBlanks.remaining ≤ l.remaining := by
  fun_induction skipBlanks l with
  | case1 => exact Nat.le_refl _
  | case2 l _ _ _ ih => exact Nat.le_trans ih (remaining_step_le l)
  | case3 => exact Nat.le_refl _

/-- A draft that keeps characters of a class never goes back. -/
theorem remaining_keepWhile_le (p : Char → Bool) (d : Draft) :
    (d.keepWhile p).lexer.remaining ≤ d.lexer.remaining := by
  fun_induction Draft.keepWhile p d with
  | case1 => exact Nat.le_refl _
  | case2 _ _ h _ ih =>
      exact Nat.le_trans ih (Nat.le_of_lt (Draft.remaining_keep_step_lt h))
  | case3 => exact Nat.le_refl _

/-- The reader of a block comment never goes back. -/
theorem remaining_keepComment_le (d : Draft) :
    d.keepComment.lexer.remaining ≤ d.lexer.remaining := by
  fun_induction Draft.keepComment d with
  | case1 d => exact Nat.le_of_eq (remaining_raise _ _ d.lexer)
  | case2 d => exact Nat.le_trans (remaining_step_le _) (remaining_step_le d.lexer)
  | case3 _ _ h _ ih =>
      exact Nat.le_trans ih (Nat.le_of_lt (Draft.remaining_keep_step_lt h))

/-- The reader of the body of a string never goes back. -/
theorem remaining_keepString_le (d : Draft) :
    d.keepString.lexer.remaining ≤ d.lexer.remaining := by
  fun_induction Draft.keepString d with
  | case1 d => exact Nat.le_of_eq (remaining_raise _ _ d.lexer)
  | case2 d => exact remaining_step_le d.lexer
  | case3 _ _ _ h _ ih =>
      exact Nat.le_trans ih (Nat.le_of_lt (Draft.remaining_escape_lt h))
  | case4 d escape decoded _ h _ ih =>
      have hkeep := (d.resume escape.2).remaining_keep decoded
      exact Nat.le_trans ih (hkeep ▸ Nat.le_of_lt (Draft.remaining_escape_lt h))
  | case5 _ _ h _ _ ih =>
      exact Nat.le_trans ih (Nat.le_of_lt (Draft.remaining_keep_step_lt h))

/-- The reader of the digits of an exponent never goes back. -/
theorem remaining_readMagnitude_le (magnitude digits : Nat) (l : Lexer) :
    (l.readMagnitude magnitude digits).2.2.remaining ≤ l.remaining := by
  fun_induction readMagnitude magnitude digits l with
  | case1 => exact Nat.le_refl _
  | case2 _ _ l _ _ ih => exact Nat.le_trans ih (remaining_step_le l)

/-- The reader of an exponent never goes back. -/
theorem remaining_readExponent_le (l : Lexer) :
    l.readExponent.2.remaining ≤ l.remaining := by
  have hsign : ∀ signed : Bool, (if signed then l.step else l).remaining ≤
      l.remaining := by
    intro signed
    cases signed
    · exact Nat.le_refl _
    · exact remaining_step_le l
  unfold readExponent
  dsimp only
  generalize (l.current? == some '-') = negative
  have hdigits :=
    Nat.le_trans (remaining_readMagnitude_le 0 0 _)
      (hsign (negative || l.current? == some '+'))
  generalize readMagnitude 0 0 _ = magnitude at hdigits ⊢
  split
  · exact Nat.le_trans (Nat.le_of_eq (remaining_raise ..)) hdigits
  · exact hdigits

/-- The digits of a number take at least its first one. -/
theorem remaining_accumulate_lt {radix d : Nat} {a : Accumulator}
    (h : a.lexer.current?.bind (Character.digit? radix) = some d) :
    (a.accumulate radix).lexer.remaining < a.lexer.remaining := by
  rw [Accumulator.accumulate]
  split
  · rename_i hnone
    exact nomatch hnone.symm.trans h
  · rename_i hsome
    exact Nat.lt_of_le_of_lt (Accumulator.remaining_accumulate_le radix _)
      (Accumulator.remaining_count_step_lt hsome)

/-- A number with a mark takes at least the zero that it begins with. -/
theorem remaining_readRadixNumber_lt (h : l.current? = some c) :
    l.readRadixNumber.2.remaining < l.remaining := by
  have hmarked :=
    Nat.lt_of_le_of_lt (remaining_step_le l.step) (remaining_step_lt h)
  have hdigits : ∀ (radix : Nat) (l' : Lexer),
    l'.remaining = l.step.step.remaining →
      (Accumulator.accumulate radix { lexer := l' }).lexer.remaining <
        l.remaining := by
    intro radix l' hl'
    exact Nat.lt_of_le_of_lt (Accumulator.remaining_accumulate_le radix _)
      (hl' ▸ hmarked)
  unfold readRadixNumber
  dsimp only
  split
  · split
    · rw [remaining_raise]
      exact hdigits _ _ rfl
    · exact hdigits _ _ rfl
  · split
    · rw [remaining_raise]
      exact hdigits _ _ (remaining_raise ..)
    · exact hdigits _ _ (remaining_raise ..)

/-- A decimal number takes at least its first digit. -/
theorem remaining_readDecimalNumber_lt (h : l.current? = some c)
    (hdigit : Character.isDigitOf 10 c = true) :
    l.readDecimalNumber.2.remaining < l.remaining := by
  obtain ⟨d, hd⟩ := Option.isSome_iff_exists.mp hdigit
  have hintegral : (Accumulator.accumulate 10 { lexer := l }).lexer.remaining <
      l.remaining :=
    remaining_accumulate_lt (d := d) (by rw [h]; exact hd)
  unfold readDecimalNumber
  dsimp only
  generalize Accumulator.accumulate 10 { lexer := l } = integral at hintegral ⊢
  have hfraction : ∀ pointed : Bool, (if pointed = true then
      Accumulator.accumulate 10
        { lexer := integral.lexer.step, length := integral.length }
      else { lexer := integral.lexer }).lexer.remaining < l.remaining := by
    intro pointed
    cases pointed
    · exact hintegral
    · exact Nat.lt_of_le_of_lt
        (Nat.le_trans (Accumulator.remaining_accumulate_le 10 _)
        (remaining_step_le integral.lexer)) hintegral
  generalize (integral.lexer.current? == some '.' && _) = pointed
  have hfraction := hfraction pointed
  generalize (if pointed = true then _ else _ : Accumulator) =
    fraction at hfraction ⊢
  split
  · exact Nat.lt_of_le_of_lt
      (Nat.le_trans (remaining_readExponent_le _) (remaining_step_le _)) hfraction
  · split <;> exact hfraction

/-- The reader of a symbol never goes back. -/
theorem remaining_readSymbol_le (text : List Char) (l : Lexer) :
    (l.readSymbol text).2.remaining ≤ l.remaining := by
  have hfinish : ∀ (text : List Char) (l : Lexer),
      (l.finishSymbol text).2.remaining ≤ l.remaining := by
    intro text l
    unfold finishSymbol
    split
    · exact Nat.le_refl _
    · exact Nat.le_of_eq (remaining_raise ..)
  fun_induction readSymbol text l with
  | case1 => exact hfinish _ _
  | case2 _ l =>
      exact Nat.le_trans (remaining_keepWhile_le _ _) (remaining_step_le l)
  | case3 _ l =>
      exact Nat.le_trans (remaining_keepComment_le _) (remaining_step_le l)
  | case4 _ l _ _ _ _ _ ih => exact Nat.le_trans ih (remaining_step_le l)
  | case5 => exact hfinish _ _

/-- A symbol or a comment takes at least its first character. -/
theorem remaining_readSymbol_lt (h : l.current? = some c)
    (hlive : Symbol.isLive [c] = true) :
    (l.readSymbol []).2.remaining < l.remaining := by
  have hstep := remaining_step_lt h
  rw [readSymbol]
  split
  · rename_i hnone
    exact nomatch hnone.symm.trans h
  · rename_i c' hc
    obtain rfl : c = c' := Option.some.inj (h.symm.trans hc)
    rw [List.nil_append, if_pos hlive]
    split
    · exact Nat.lt_of_le_of_lt (remaining_keepWhile_le _ _) hstep
    · split
      · exact Nat.lt_of_le_of_lt (remaining_keepComment_le _) hstep
      · exact Nat.lt_of_le_of_lt (remaining_readSymbol_le _ _) hstep

/-- A word takes at least its first character. -/
theorem remaining_readWord_lt (h : l.current? = some c)
    (hpart : Character.isWordPart c = true) :
    l.readWord.2.remaining < l.remaining := by
  have hkeep : (Draft.keepWhile Character.isWordPart
      { lexer := l }).lexer.remaining < l.remaining := by
    rw [Draft.keepWhile]
    split
    · rename_i hnone
      exact nomatch hnone.symm.trans h
    · rename_i c' hc
      obtain rfl : c = c' := Option.some.inj (h.symm.trans hc)
      rw [if_pos hpart]
      exact Nat.lt_of_le_of_lt (remaining_keepWhile_le _ _)
        (Draft.remaining_keep_step_lt h)
  unfold readWord
  dsimp only
  split <;> exact hkeep

/-- Every reader takes at least the character that chose it. -/
theorem remaining_readFrom_lt (h : l.current? = some c) :
    (l.readFrom c).2.remaining < l.remaining := by
  unfold readFrom
  split
  · exact remaining_readSymbol_lt h (by assumption)
  · split
    · rename_i halphabetic
      exact remaining_readWord_lt h (by rw [Character.isWordPart, halphabetic]; rfl)
    · split
      · unfold readNumber
        split
        · exact remaining_readRadixNumber_lt h
        · exact remaining_readDecimalNumber_lt h (by assumption)
      · split
        · exact Nat.lt_of_le_of_lt (remaining_keepString_le _) (remaining_step_lt h)
        · unfold readUnknown
          rw [remaining_raise]
          exact remaining_step_lt h

/-- A token that is not the end of the text takes at least one character. -/
theorem remaining_advance_lt (l : Lexer) (h : l.advance.1.lexeme ≠ .endOfText) :
    l.advance.2.remaining < l.remaining := by
  have hbegin : l.begin.remaining ≤ l.remaining := remaining_skipBlanks_le _
  unfold advance at h ⊢
  dsimp only at h ⊢
  split at h
  · exact absurd rfl h
  · rename_i c hc
    exact Nat.lt_of_lt_of_le (remaining_readFrom_lt hc) hbegin

/-- The tokens from a lexer on, the end of the text included. -/
def tokens (l : Lexer) : List Lexed :=
  let read := l.advance
  if _h : read.1.lexeme = .endOfText then [⟨read.1, read.2.notes⟩]
  else ⟨read.1, read.2.notes⟩ :: tokens read.2
termination_by l.remaining
decreasing_by exact remaining_advance_lt l _h

end Lexer

end ScriptLang
