import ScriptLang.Token.Number
import ScriptLang.Token.StringBody

/-!
# From text to tokens

`Lexed.next` skips blanks and reads one token.  The first character decides who
reads it, in this order: the beginning of a symbol or comment, of a word, of a
number, of a string; anything else is a token of its own that the language does not
know.  No text stops the lexer, and every token but the last takes at least one
character (`next_length_lt`), so `Lexed.all` reaches the end of every text.
-/

namespace ScriptLang

/-- The longest text at the cursor that some symbol begins with, read on from
`text`. -/
def liveRun (text : List Char) : Position → List Glyph → List Char × Cursor
  | here, [] => (text, ⟨here, []⟩)
  | here, g :: rest =>
    if Symbol.isLive (text ++ [g.char]) then
      liveRun (text ++ [g.char]) (here.after g) rest
    else (text, ⟨here, g :: rest⟩)

/-- The characters of a block comment up to its closer, whether there was one, and
the cursor behind it. -/
def commentRun : Position → List Glyph → List Placed × Bool × Cursor
  | here, [] => ([], false, ⟨here, []⟩)
  | here, [g] => ([⟨g.char, here⟩], false, ⟨here.after g, []⟩)
  | here, g :: h :: rest =>
    if g.char = '*' ∧ h.char = '/' then ([], true, ⟨(here.after g).after h, rest⟩)
    else
      let (body, closed, behind) := commentRun (here.after g) (h :: rest)
      (⟨g.char, here⟩ :: body, closed, behind)

/-- The error of a lexeme that the end of the text cuts off. -/
def unclosed (closed : Bool) (behind : Cursor) : List (Located LexicalError) :=
  if closed then [] else [⟨.unexpectedEndOfText, behind.position⟩]

/-- Reads what follows the opener of a line comment. -/
def readLineComment (limit : Nat) (c : Cursor) : Reading :=
  let (run, behind) := c.run (· != '\n')
  { lexeme := .lineComment (content limit run)
    errors := overrun limit run
    behind }

/-- Reads what follows the opener of a block comment. -/
def readBlockComment (limit : Nat) (c : Cursor) : Reading :=
  let (body, closed, behind) := commentRun c.position c.rest
  { lexeme := .blockComment (content limit body)
    errors := overrun limit body ++ unclosed closed behind
    behind }

/-- Reads a symbol or a comment. -/
def readSymbol (limit : Nat) (c : Cursor) : Reading :=
  let (text, behind) := liveRun [] c.position c.rest
  if text = Symbol.lineComment then readLineComment limit behind
  else if text = Symbol.blockComment then readBlockComment limit behind
  else
    match Symbol.ofChars? text with
    | some sign => { lexeme := .symbol sign, behind }
    | none =>
      { lexeme := .unknown (String.ofList text)
        errors := [⟨.unknownToken (String.ofList text), c.position⟩]
        behind }

/-- Reads a word: a keyword, or a name. -/
def readWord (limit : Nat) (c : Cursor) : Reading :=
  let (run, behind) := c.run Character.isWordPart
  let text := content limit run
  { lexeme :=
      match Keyword.ofText? text with
      | some word => .keyword word
      | none => .identifier text
    errors := overrun limit run
    behind }

/-- Reads a string literal, whose opening quote is at the cursor. -/
def readString (limit : Nat) (c : Cursor) : Reading :=
  let run := bodyRun false c.advance.position c.advance.rest
  let (items, warnings) := decode run.finish run.body
  { lexeme := .string (content limit items)
    errors := overrun limit items ++ unclosed run.closed run.behind
    warnings
    behind := run.behind }

/-- Reads a character that begins no token of the language. -/
def readUnknown (here : Position) (char : Char) (c : Cursor) : Reading :=
  { lexeme := .unknown char.toString
    errors := [⟨.unknownToken char.toString, here⟩]
    behind := c.advance }

/-- Reads the token that begins with the given character, which is at the cursor. -/
def readFrom (limit : Nat) (first : Char) (c : Cursor) : Reading :=
  if Symbol.isLive [first] then readSymbol limit c
  else if Character.isAlphabetic first then readWord limit c
  else if Character.isDigitOf 10 first then readNumber limit c
  else if first = '"' then readString limit c
  else readUnknown c.position first c

/-- Skips blanks and reads one token; at the end of the text it stays there. -/
def Lexed.next (limit : Nat) (c : Cursor) : Lexed × Cursor :=
  let c := c.skip Character.isBlank
  match c.current? with
  | none => (⟨⟨.endOfText, Span.point c.position⟩, ⟨none, []⟩⟩, c)
  | some first =>
    let reading := readFrom limit first c
    (⟨⟨reading.lexeme, ⟨c.position, reading.behind.position⟩⟩,
      ⟨reading.errors.head?, reading.warnings⟩⟩, reading.behind)

/-- The reader of a symbol never goes back. -/
theorem liveRun_length_le (text : List Char) (here : Position) (rest : List Glyph) :
    (liveRun text here rest).2.rest.length ≤ rest.length := by
  induction rest generalizing text here with
  | nil => simp [liveRun]
  | cons g rest ih =>
      unfold liveRun
      split
      · exact Nat.le_succ_of_le (ih _ _)
      · exact Nat.le_refl _

/-- The reader of a block comment never goes back. -/
theorem commentRun_length_le (here : Position) (rest : List Glyph) :
    (commentRun here rest).2.2.rest.length ≤ rest.length := by
  fun_induction commentRun here rest with
  | case1 => simp
  | case2 => simp
  | case3 => simp; omega
  | case4 here g h rest _ body closed behind eq ih =>
      rw [eq] at ih
      simp only [List.length_cons] at ih ⊢
      omega

/-- A number with a mark takes at least the zero that it begins with. -/
theorem readRadixNumber_length_lt (limit : Nat) {c : Cursor} {first : Char}
    (h : c.current? = some first) :
    (readRadixNumber limit c).behind.rest.length < c.rest.length := by
  have h₁ := Cursor.advance_length_lt h
  have h₂ := Cursor.advance_length_le c.advance
  have h₃ := fun p => Cursor.run_length_le p c.advance.advance
  exact Nat.lt_of_le_of_lt (Nat.le_trans (h₃ _) h₂) h₁

/-- The reader of an exponent never goes back. -/
theorem readExponent_length_le (c : Cursor) :
    (readExponent c).2.2.rest.length ≤ c.rest.length := by
  have h₁ := fun p => Cursor.run_length_le p c
  have h₂ :=
    fun p => Nat.le_trans (Cursor.run_length_le p c.advance)
      (Cursor.advance_length_le c)
  unfold readExponent
  dsimp only
  split <;> split <;> solve_by_elim

theorem fractionRun_length_le (c : Cursor) :
    (fractionRun c).2.rest.length ≤ c.rest.length := by
  unfold fractionRun
  split
  · exact Nat.le_trans (Cursor.run_length_le _ _) (Cursor.advance_length_le c)
  · exact Nat.le_refl _

/-- An exponent, if there is one, leaves no more than there was. -/
theorem exponentPart?_length_le {c : Cursor}
    {part : Option Int × List (Located LexicalError) × Cursor}
    (h : exponentPart? c = some part) : part.2.2.rest.length ≤ c.rest.length := by
  unfold exponentPart? at h
  split at h
  · obtain rfl := Option.some.inj h
    exact Nat.le_trans (readExponent_length_le _) (Cursor.advance_length_le c)
  · simp at h

/-- A decimal number takes at least its first digit. -/
theorem readDecimalNumber_length_lt (limit : Nat) {c : Cursor} {first : Char}
    (h : c.current? = some first) (hd : Character.isDigitOf 10 first = true) :
    (readDecimalNumber limit c).behind.rest.length < c.rest.length := by
  have h₁ := Nat.lt_of_le_of_lt
    (fractionRun_length_le (c.run (Character.isDigitOf 10)).2)
      (Cursor.run_length_lt h hd)
  unfold readDecimalNumber
  dsimp only
  split
  · rename_i part
    exact Nat.lt_of_le_of_lt (exponentPart?_length_le part) h₁
  · exact h₁

/-- A character that can begin a symbol is taken. -/
theorem liveRun_length_lt (here : Position) {g : Glyph} (rest : List Glyph)
    (h : Symbol.isLive [g.char] = true) :
    (liveRun [] here (g :: rest)).2.rest.length < (g :: rest).length := by
  unfold liveRun
  simp only [List.nil_append, h, if_true]
  exact Nat.lt_succ_of_le (liveRun_length_le _ _ _)

/-- A symbol or a comment takes at least its first character. -/
theorem readSymbol_length_lt (limit : Nat) {c : Cursor} {first : Char}
    (h : c.current? = some first) (hl : Symbol.isLive [first] = true) :
    (readSymbol limit c).behind.rest.length < c.rest.length := by
  obtain ⟨here, rest⟩ := c
  cases rest with
  | nil => simp [Cursor.current?] at h
  | cons g rest =>
      simp only [Cursor.current?, List.head?_cons, Option.map_some,
        Option.some.injEq] at h
      subst h
      have h₁ := liveRun_length_lt here rest hl
      unfold readSymbol
      dsimp only
      split
      · exact Nat.lt_of_le_of_lt (Cursor.run_length_le _ _) h₁
      · split
        · exact Nat.lt_of_le_of_lt (commentRun_length_le _ _) h₁
        · split <;> exact h₁

/-- A letter that begins a word is part of it. -/
theorem isWordPart_of_isAlphabetic {c : Char}
    (h : Character.isAlphabetic c = true) :
    Character.isWordPart c = true := by
  simp [Character.isWordPart, h]

/-- Every reader takes at least the character that chose it. -/
theorem readFrom_length_lt (limit : Nat) {c : Cursor} {first : Char}
    (h : c.current? = some first) :
    (readFrom limit first c).behind.rest.length < c.rest.length := by
  unfold readFrom
  split
  · exact readSymbol_length_lt limit h (by assumption)
  · split
    · exact Cursor.run_length_lt h (isWordPart_of_isAlphabetic (by assumption))
    · split
      · unfold readNumber
        split
        · exact readRadixNumber_length_lt limit h
        · exact readDecimalNumber_length_lt limit h (by assumption)
      · split
        · exact Nat.lt_of_le_of_lt (bodyRun_length_le _ _ _)
            (Cursor.advance_length_lt h)
        · exact Cursor.advance_length_lt h

/-- A token that is not the end of the text takes at least one character. -/
theorem Lexed.next_length_lt (limit : Nat) (c : Cursor)
    (h : (Lexed.next limit c).1.token.lexeme ≠ .endOfText) :
    (Lexed.next limit c).2.rest.length < c.rest.length := by
  have hs := Cursor.skip_length_le Character.isBlank c
  unfold Lexed.next at h ⊢
  dsimp only at h ⊢
  split at h
  · simp at h
  · rename_i first hf
    exact Nat.lt_of_lt_of_le (readFrom_length_lt limit hf) hs

/-- The tokens from a cursor on, the end of the text included. -/
def Lexed.all (limit : Nat) (c : Cursor) : List Lexed :=
  let step := Lexed.next limit c
  if _h : step.1.token.lexeme = .endOfText then [step.1]
  else step.1 :: Lexed.all limit step.2
termination_by c.rest.length
decreasing_by exact Lexed.next_length_lt limit c _h

/-- The tokens of a text. -/
def Lexed.ofText (limit : Nat) (source : String) : List Lexed :=
  Lexed.all limit (Cursor.ofText source)

end ScriptLang
