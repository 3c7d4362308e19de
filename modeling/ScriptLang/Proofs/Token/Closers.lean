import Mathlib.Order.Bounds.Basic
import ScriptLang.Proofs.Source.Places
import ScriptLang.Proofs.Token.Symbols
import ScriptLang.Proofs.Token.Unclosed

/-!
# Where strings and comments end

The readers of strings and comments look at one or two characters at a time.  What
they do comes to this: a string ends with the first quote behind an even number of
backslashes, a block comment with the first `*/` behind its opener, and a line
comment in front of the first line break.  Without such a place the token takes the
rest of the text (`StopsAtFirst`), and for a string and a block comment that is an
error, unless the limit was exceeded before.

Each loop passes the characters before that place one by one (`StopsAtFirst.step`).
For strings, whether the character at the cursor belongs to an escape sequence says
how many backslashes stand before it (`escapesNext_iff`).
-/

namespace ScriptLang

/-- Whether a string ends with the character at an index behind its opening
quote. -/
def ClosesString (text : List Char) (i : Nat) : Prop :=
  text[i]? = some '"' ∧ ((text.take i).rtakeWhile (· == '\\')).length % 2 = 0

/-- Whether a block comment ends with the two characters at an index behind its
opener. -/
def ClosesComment (text : List Char) (i : Nat) : Prop :=
  text[i]? = some '*' ∧ text[i + 1]? = some '/'

/-- Whether a line comment ends in front of the character at an index behind its
opener. -/
def ClosesLine (text : List Char) (i : Nat) : Prop := text[i]? = some '\n'

instance (text : List Char) (i : Nat) : Decidable (ClosesString text i) :=
  inferInstanceAs (Decidable (_ ∧ _))

instance (text : List Char) (i : Nat) : Decidable (ClosesComment text i) :=
  inferInstanceAs (Decidable (_ ∧ _))

instance (text : List Char) (i : Nat) : Decidable (ClosesLine text i) :=
  inferInstanceAs (Decidable (_ = _))

open Cursor

/-- A reader that passes everything in front of the first index where `closes`
holds, and `closer` characters from there on; without such an index it passes
everything.  The flag tells which. -/
structure StopsAtFirst (closes : Nat → Prop) (closer : Nat) (c : Cursor)
    (closed : Bool) (behind : Cursor) : Prop where
  found : ∀ i, IsLeast {i | closes i} i → closed = true ∧
    behind = advance^[i + closer] c
  missed : (∀ i, ¬ closes i) → closed = false ∧
    behind = ⟨c.position.behind c.rest, []⟩

namespace StopsAtFirst

variable {closes : Nat → Prop} {closer : Nat} {c behind : Cursor} {closed : Bool}

/-- A loop that finds its condition at once goes past the closer. -/
theorem of_zero (h : closes 0) :
    StopsAtFirst closes closer c true (advance^[closer] c) where
  found i hi := by
    obtain rfl : i = 0 := Nat.le_zero.mp (hi.2 h)
    rw [Nat.zero_add]
    exact ⟨rfl, rfl⟩
  missed hnone := absurd h (hnone 0)

/-- A reader that stops at no character before the end. -/
theorem of_nil (here : Position) (h : ∀ i, ¬ closes i) :
    StopsAtFirst closes closer ⟨here, []⟩ false ⟨here, []⟩ where
  found i hi := absurd hi.1 (h i)
  missed _ := ⟨rfl, rfl⟩

/-- A reader that passes the first character and then does the same with the
rest. -/
theorem step {here : Position} {g : Glyph} {rest : List Glyph} (hzero : ¬ closes 0)
    (h : StopsAtFirst (fun i => closes (i + 1)) closer ⟨here.after g, rest⟩
      closed behind) :
    StopsAtFirst closes closer ⟨here, g :: rest⟩ closed behind where
  found i hi := by
    cases i with
    | zero => exact absurd hi.1 hzero
    | succ i =>
        have hleast : IsLeast {i | closes (i + 1)} i :=
          ⟨hi.1, fun j hj => Nat.le_of_succ_le_succ (hi.2 hj)⟩
        rw [Nat.succ_add]
        exact h.found i hleast
  missed hnone := h.missed fun i => hnone (i + 1)

/-- Conditions that hold at the same places stop a loop at the same place. -/
theorem congr {closes' : Nat → Prop} (hcloses : ∀ i, closes i ↔ closes' i)
    (h : StopsAtFirst closes closer c closed behind) :
    StopsAtFirst closes' closer c closed behind := by
  obtain rfl : closes = closes' := funext fun i => propext (hcloses i)
  exact h

end StopsAtFirst

/-! ## The loops -/

/-- Whether a string ends with the character at an index, when the flag says that
the first one is escaped. -/
def ClosesFrom (escaped : Bool) (text : List Char) (i : Nat) : Prop :=
  text[i]? = some '"' ∧ (text.take i).foldl (fun escaped c => !escaped && c == '\\')
    escaped = false

/-- Outside of an escape sequence, a string is closed where `ClosesString` says. -/
theorem closesFrom_false (text : List Char) (i : Nat) :
    ClosesFrom false text i ↔ ClosesString text i := by
  have hparity := escapesNext_iff (text.take i)
  rw [escapesNext] at hparity
  rw [ClosesFrom, ClosesString, ← Bool.not_eq_true, hparity, Nat.mod_two_not_eq_one]

/-- The loop over a string stops at the first quote that closes it. -/
theorem bodyRun_stops (escaped : Bool) (here : Position) (rest : List Glyph) :
    StopsAtFirst (ClosesFrom escaped (rest.map Glyph.char)) 1 ⟨here, rest⟩
      (bodyRun escaped here rest).closed
      (bodyRun escaped here rest).behind := by
  induction rest generalizing escaped here with
  | nil => exact .of_nil here fun i hi => by simp [ClosesFrom] at hi
  | cons g rest ih =>
      have hzero : ClosesFrom escaped ((g :: rest).map Glyph.char) 0 ↔
          (!escaped && g.char == '"') = true := by
        simp [ClosesFrom, and_comm]
      by_cases hclose : (!escaped && g.char == '"') = true
      · rw [bodyRun, if_pos hclose]
        exact .of_zero (hzero.mpr hclose)
      · rw [bodyRun, if_neg hclose]
        exact .step (mt hzero.mp hclose) (ih _ _)

/-- The loop over a block comment stops at the first closer. -/
theorem commentRun_stops (here : Position) (rest : List Glyph) :
    StopsAtFirst (ClosesComment (rest.map Glyph.char)) 2 ⟨here, rest⟩
      (commentRun here rest).2.1
      (commentRun here rest).2.2 := by
  fun_induction commentRun here rest with
  | case1 here => exact .of_nil here fun i hi => by simp [ClosesComment] at hi
  | case2 here g =>
      refine .step (fun hi => by simp [ClosesComment] at hi)
        (.of_nil _ fun i hi => ?_)
      simp [ClosesComment] at hi
  | case3 here g h rest hclose =>
      exact .of_zero (by simpa [ClosesComment] using hclose)
  | case4 here g h rest hclose body closed behind hrun ih =>
      rw [hrun] at ih
      exact .step (by simpa [ClosesComment] using hclose) ih

/-- The loop over a line comment stops at the first line break. -/
theorem run_stops (here : Position) (rest : List Glyph) :
    ∃ closed, StopsAtFirst (ClosesLine (rest.map Glyph.char)) 0 ⟨here, rest⟩ closed
      (run (· != '\n') ⟨here, rest⟩).2 := by
  unfold run
  dsimp only
  induction rest generalizing here with
  | nil => exact ⟨false, .of_nil here fun i hi => by simp [ClosesLine] at hi⟩
  | cons g rest ih =>
      rw [run.go]
      by_cases hbreak : g.char = '\n'
      · rw [if_neg (by simp [hbreak])]
        exact ⟨true, .of_zero (by simp [ClosesLine, hbreak])⟩
      · obtain ⟨closed, hstops⟩ := ih (here.after g)
        rw [if_pos (by simp [hbreak])]
        exact ⟨closed, .step (by simp [ClosesLine, hbreak]) hstops⟩

/-! ## Tokens -/

namespace Cursor

variable {c : Cursor}

/-- What is ahead after some steps is what was ahead without as many characters. -/
theorem ahead_iterate (k : Nat) (c : Cursor) :
    (advance^[k] c).ahead = c.ahead.drop k := by
  rw [iterate_advance, ahead, ahead, List.map_drop]

end Cursor

namespace Lexed

/-- A token that begins at a cursor and ends at another one.  It is of a kind that
has an opener there, and reaches to the first place behind the opener that closes
it, with the closer, or to the end of the text.  The flag tells which. -/
structure Reaches (c : Cursor) (token : Token) (behind : Cursor) (kind : TokenKind)
    (opener closer : Nat) (closes : List Char → Nat → Prop)
    (closed : Bool) : Prop where
  kind_eq : token.kind = kind
  span_eq : token.span = ⟨c.position, behind.position⟩
  stops : StopsAtFirst (closes (c.ahead.drop opener)) closer
    (advance^[opener] c) closed behind

/-- The end of the text is an error where a token is not closed, unless there was an
earlier one. -/
structure NotesEnd (token : Token) (notes : Notes)
    (earlier : List (Located LexicalError)) (closed : Bool) : Prop where
  of_closed : closed = true →
    notes.error.map Located.what ≠ some .unexpectedEndOfText
  of_open : closed = false →
    notes.error = earlier.head?.or (some ⟨.unexpectedEndOfText, token.span.stop⟩)

variable {c : Cursor} {first : Char} {limit : Nat}

/-- A lexeme that is too long is no missing end. -/
theorem overrun_ne_endOfText (limit : Nat) (items : List Placed) :
    (overrun limit items).head?.map Located.what ≠ some .unexpectedEndOfText := by
  unfold overrun
  split <;> simp

/-- Where the loop of a reader stops is where its token stops. -/
theorem reaches_of_readFrom {kind : TokenKind} {opener closer : Nat}
    {closes : List Char → Nat → Prop} {closed : Bool}
    (hfirst : c.current? = some first) (hblank : Character.isBlank first = false)
    (hkind : (readFrom limit first c).lexeme.kind = kind)
    (hstops : StopsAtFirst (closes (advance^[opener] c).ahead) closer
      (advance^[opener] c) closed (readFrom limit first c).behind) :
    Reaches c (next limit c).1.token (next limit c).2 kind opener closer
      closes closed := by
  have hnext := next_of_current limit hfirst hblank
  rw [ahead_iterate] at hstops
  exact ⟨by rw [hnext]; exact hkind, by rw [hnext], by rw [hnext]; exact hstops⟩

/-- The end of the text is noted if nothing came before it and the token is not
closed. -/
theorem notesEnd_of_readFrom {items : List Placed}
    {earlier : List (Located LexicalError)} {closed : Bool}
    (hfirst : c.current? = some first) (hblank : Character.isBlank first = false)
    (herrors : (readFrom limit first c).errors = overrun limit items ++
      unclosed closed (readFrom limit first c).behind)
    (hearlier : closed = false → overrun limit items = earlier) :
    NotesEnd (next limit c).1.token (next limit c).1.notes earlier closed := by
  rw [next_of_current limit hfirst hblank]
  constructor
  · rintro rfl
    dsimp only
    rw [herrors, unclosed, if_pos rfl, List.append_nil]
    exact overrun_ne_endOfText limit items
  · rintro rfl
    dsimp only
    rw [herrors, hearlier rfl, unclosed, if_neg Bool.false_ne_true,
      List.head?_append]
    rfl

/-- The next token reaches up to its closer, or to the end of the text. -/
theorem next_reaches (limit : Nat) (c : Cursor) :
    let l := (next limit c).1
    let behind := (next limit c).2
    let stop := c.position.behind c.rest
    (['"'] <+: c.ahead → ∃ closed,
      Reaches c l.token behind .string 1 1 ClosesString closed ∧
      NotesEnd l.token l.notes
        (overrun limit (decode stop
          (Glyph.placed c.advance.position c.advance.rest)).1) closed) ∧
    (Symbol.blockComment <+: c.ahead →
      ∃ closed, Reaches c l.token behind .blockComment 2 2 ClosesComment closed ∧
        NotesEnd l.token l.notes
          (overrun limit (Glyph.placed (advance^[2] c).position
            (advance^[2] c).rest)) closed) ∧
    (Symbol.lineComment <+: c.ahead →
      ∃ closed, Reaches c l.token behind .lineComment 2 0 ClosesLine closed ∧
        l.notes.error.map Located.what ≠ some .unexpectedEndOfText) := by
  intro l behind stop
  refine ⟨fun hopens => ?_, fun hopens => ?_, fun hopens => ?_⟩
  · have hfirst := current_of_ahead hopens
    have hread := readFrom_quote limit c
    have hstops :=
      (bodyRun_stops false c.advance.position c.advance.rest).congr
        (closesFrom_false _)
    refine ⟨_, reaches_of_readFrom
      hfirst (by decide) (by rw [hread]; rfl) (by rw [hread]; exact hstops),
      notesEnd_of_readFrom hfirst (by decide) (by rw [hread]; rfl) fun hopen => ?_⟩
    rw [bodyRun_of_open hopen, (moves_advance c).behind_eq]
  · have hfirst := current_of_ahead hopens
    have hread := readFrom_blockComment limit hopens
    have hstops := commentRun_stops (advance^[2] c).position (advance^[2] c).rest
    refine ⟨_, reaches_of_readFrom
      hfirst (by decide) (by rw [hread]; rfl) (by rw [hread]; exact hstops),
      notesEnd_of_readFrom hfirst (by decide) (by rw [hread]; rfl) fun hopen => ?_⟩
    rw [commentRun_of_open hopen]
  · have hfirst := current_of_ahead hopens
    have hread := readFrom_lineComment limit hopens
    obtain ⟨closed, hstops⟩ :=
      run_stops (advance^[2] c).position (advance^[2] c).rest
    refine ⟨closed, reaches_of_readFrom
      hfirst (by decide) (by rw [hread]; rfl) (by rw [hread]; exact hstops), ?_⟩
    simp only [l, next_of_current limit hfirst (by decide), hread]
    exact overrun_ne_endOfText limit _

end Lexed

namespace Lexer

/-- A string ends with the first quote behind its opening quote that has an even
number of backslashes right before it, a block comment with the first `*/` behind
its opener, and a line comment in front of the first line break.  Where there is no
such place, the token ends with the text.  For a string and a block comment that is
an error, unless the limit was exceeded before; for a line comment it is none. -/
theorem advance_reaches (l : Lexer) :
    let c := l.cursor
    let token := l.advance.1
    let behind := l.advance.2.cursor
    let notes := l.advance.2.notes
    let stop := c.position.behind c.rest
    (['"'] <+: c.ahead → ∃ closed,
      Lexed.Reaches c token behind .string 1 1 ClosesString closed ∧
      Lexed.NotesEnd token notes
        (overrun l.limit (decode stop
          (Glyph.placed c.advance.position c.advance.rest)).1) closed) ∧
    (Symbol.blockComment <+: c.ahead →
      ∃ closed, Lexed.Reaches c token behind .blockComment 2 2
        ClosesComment closed ∧
        Lexed.NotesEnd token notes
          (overrun l.limit (Glyph.placed c.advance.advance.position
            c.advance.advance.rest)) closed) ∧
    (Symbol.lineComment <+: c.ahead →
      ∃ closed, Lexed.Reaches c token behind .lineComment 2 0 ClosesLine closed ∧
        notes.error.map Located.what ≠ some .unexpectedEndOfText) := by
  obtain ⟨htoken, hnotes, hbehind, _⟩ := l.advance_eq_next
  dsimp only
  rw [htoken, hnotes, hbehind]
  exact Lexed.next_reaches l.limit l.cursor

/-- A string with an escaped quote behind `\x` and a backslash before its end, a
block comment that cannot close with the star of its opener, and a line comment in
front of a line break of two characters. -/
theorem raggedEnds_reached :
    let c := ofText 3 "\"a\\x\\\"\\\\\"b"
    let d := ofText 3 "/*/"
    let e := ofText 3 "// *\r\n/"
    (['"'] <+: c.cursor.ahead ∧
      IsLeast {i | ClosesString (c.cursor.ahead.drop 1) i} 7 ∧
      c.advance.2.cursor = Cursor.advance^[9] c.cursor ∧
      c.advance.2.error = some ⟨.lexemeTooLong 3, ⟨8, 1, 9⟩⟩) ∧
    (Symbol.blockComment <+: d.cursor.ahead ∧
      (∀ i, ¬ ClosesComment (d.cursor.ahead.drop 2) i) ∧
      d.advance.2.notes.error = some ⟨.unexpectedEndOfText, ⟨3, 1, 4⟩⟩) ∧
    Symbol.lineComment <+: e.cursor.ahead ∧
      IsLeast {i | ClosesLine (e.cursor.ahead.drop 2) i} 2 ∧
      e.advance.2.cursor = Cursor.advance^[4] e.cursor := by
  intro c d e
  have hstring : ['"'] <+: c.cursor.ahead := by decide +kernel
  have hquote : IsLeast {i | ClosesString (c.cursor.ahead.drop 1) i} 7 := by
    have hbefore : ∀ j < 7, ¬ ClosesString (c.cursor.ahead.drop 1) j := by
      decide +kernel
    exact ⟨by decide +kernel, fun j hj => Nat.not_lt.mp fun hlt => hbefore j hlt hj⟩
  have hblock : Symbol.blockComment <+: d.cursor.ahead := by decide +kernel
  have hopen : ∀ i, ¬ ClosesComment (d.cursor.ahead.drop 2) i := by
    have hrest : d.cursor.ahead.drop 2 = ['/'] := by decide +kernel
    rw [hrest]
    rintro (_ | i) ⟨hstar, -⟩ <;> simp at hstar
  have hline : Symbol.lineComment <+: e.cursor.ahead := by decide +kernel
  have hbreak : IsLeast {i | ClosesLine (e.cursor.ahead.drop 2) i} 2 := by
    have hbefore : ∀ j < 2, ¬ ClosesLine (e.cursor.ahead.drop 2) j := by
      decide +kernel
    exact ⟨by decide +kernel, fun j hj => Nat.not_lt.mp fun hlt => hbefore j hlt hj⟩
  obtain ⟨_, hreachesString, -⟩ := (advance_reaches c).1 hstring
  obtain ⟨_, hreachesBlock, hnotes⟩ := (advance_reaches d).2.1 hblock
  obtain ⟨_, hreachesLine, -⟩ := (advance_reaches e).2.2 hline
  refine ⟨⟨hstring, hquote,
    (hreachesString.stops.found 7 hquote).2, by decide +kernel⟩,
    ⟨hblock, hopen, ?_⟩, hline, hbreak, (hreachesLine.stops.found 2 hbreak).2⟩
  obtain ⟨rfl, hbehind⟩ := hreachesBlock.stops.missed hopen
  rw [hnotes.of_open rfl, hreachesBlock.span_eq, hbehind]
  decide +kernel

end Lexer

end ScriptLang
