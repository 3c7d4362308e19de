import ScriptLang.Token.Lexer

/-!
# Tokens stand in order

A reader of the lexer only ever moves its cursor forward, one logical character
after the other (`Cursor.Moves`).  Every logical character is at least one raw
character wide, so a cursor that has less text left stands further on, and the spans
of the tokens of a text follow each other: no two of them overlap, and only the end
of the text is empty.
-/

namespace ScriptLang

namespace Cursor

/-- A cursor moves to another one by passing characters. -/
inductive Moves : Cursor → Cursor → Prop
  | refl (c : Cursor) : Moves c c
  | step {here : Position} {g : Glyph} {rest : List Glyph} {c : Cursor} :
      Moves ⟨here.after g, rest⟩ c → Moves ⟨here, g :: rest⟩ c

/-- To move and move again is to move. -/
theorem Moves.trans {a b c : Cursor} (hab : a.Moves b)
    (hbc : b.Moves c) : a.Moves c := by
  induction hab with
  | refl => exact hbc
  | step _ ih => exact .step (ih hbc)

/-- No character is empty. -/
def Solid (c : Cursor) : Prop := ∀ g ∈ c.rest, 0 < g.width

/-- A cursor that moves has the same characters before it. -/
theorem Moves.solid {c d : Cursor} (h : c.Moves d) (hc : c.Solid) : d.Solid := by
  induction h with
  | refl => exact hc
  | step _ ih => exact ih fun g hg => hc g (List.mem_cons_of_mem _ hg)

/-- Past a character, the offset has grown by its width. -/
theorem offset_after (p : Position) (g : Glyph) :
    (p.after g).offset = p.offset + g.width := by
  unfold Position.after
  split <;> rfl

/-- What is gone from the text has been passed. -/
theorem Moves.offset_add_length_le {c d : Cursor} (h : c.Moves d) (hc : c.Solid) :
    c.position.offset + c.rest.length ≤ d.position.offset + d.rest.length := by
  induction h with
  | refl => exact Nat.le_refl _
  | @step here g rest d _ ih =>
      have hbehind := ih fun g hg => hc g (List.mem_cons_of_mem _ hg)
      have hwidth := hc g List.mem_cons_self
      simp only [offset_after] at hbehind
      simp only [List.length_cons]
      omega

/-- To move is to leave no more characters. -/
theorem Moves.length_le {c d : Cursor} (h : c.Moves d) :
    d.rest.length ≤ c.rest.length := by
  induction h with
  | refl => exact Nat.le_refl _
  | step _ ih => exact Nat.le_succ_of_le ih

/-- To move is not to go back. -/
theorem Moves.offset_le {c d : Cursor} (h : c.Moves d) (hc : c.Solid) :
    c.position.offset ≤ d.position.offset := by
  have hadd := h.offset_add_length_le hc
  have hlength := h.length_le
  omega

/-! ## The loops of the lexer -/

theorem moves_advance (c : Cursor) : c.Moves c.advance := by
  obtain ⟨here, rest⟩ := c
  cases rest with
  | nil => exact .refl _
  | cons g rest => exact .step (.refl _)

theorem moves_skip (p : Char → Bool) (c : Cursor) : c.Moves (c.skip p) := by
  obtain ⟨here, rest⟩ := c
  unfold skip
  induction rest generalizing here with
  | nil => exact .refl _
  | cons g rest ih =>
      unfold skip.go
      split
      · exact .step (ih _)
      · exact .refl _

theorem moves_run (p : Char → Bool) (c : Cursor) : c.Moves (c.run p).2 := by
  obtain ⟨here, rest⟩ := c
  unfold run
  induction rest generalizing here with
  | nil => exact .refl _
  | cons g rest ih =>
      unfold run.go
      split
      · exact .step (ih _)
      · exact .refl _

end Cursor

open Cursor

/-- The reader of a symbol moves. -/
theorem liveRun_moves (text : List Char) (here : Position) (rest : List Glyph) :
    Moves ⟨here, rest⟩ (liveRun text here rest).2 := by
  induction rest generalizing text here with
  | nil => exact .refl _
  | cons g rest ih =>
      unfold liveRun
      split
      · exact .step (ih _ _)
      · exact .refl _

/-- The reader of a block comment moves. -/
theorem commentRun_moves (here : Position) (rest : List Glyph) :
    Moves ⟨here, rest⟩ (commentRun here rest).2.2 := by
  fun_induction commentRun here rest with
  | case1 => exact .refl _
  | case2 => exact .step (.refl _)
  | case3 => exact .step (.step (.refl _))
  | case4 here g h rest _ body closed behind eq ih =>
      rw [eq] at ih
      exact .step ih

/-- The reader that finds the end of a string moves. -/
theorem bodyRun_moves (escaped : Bool) (here : Position) (rest : List Glyph) :
    Moves ⟨here, rest⟩ (bodyRun escaped here rest).behind := by
  induction rest generalizing escaped here with
  | nil => exact .refl _
  | cons g rest ih =>
      unfold bodyRun
      split
      · exact .step (.refl _)
      · exact .step (ih _ _)

/-! ## Numbers -/

/-- The reader of a number with a mark moves. -/
theorem readRadixNumber_moves (limit : Nat) (c : Cursor) :
    c.Moves (readRadixNumber limit c).behind :=
  ((moves_advance c).trans (moves_advance c.advance)).trans (moves_run _ _)

/-- The reader of an exponent moves. -/
theorem readExponent_moves (c : Cursor) : c.Moves (readExponent c).2.2 := by
  unfold readExponent
  dsimp only
  split <;> split <;>
    first
    | exact (moves_advance c).trans (moves_run _ _)
    | exact moves_run _ c

theorem fractionRun_moves (c : Cursor) : c.Moves (fractionRun c).2 := by
  unfold fractionRun
  split
  · exact (moves_advance c).trans (moves_run _ _)
  · exact .refl _

/-- Behind an exponent, if there is one, the cursor has moved. -/
theorem exponentPart?_moves {c : Cursor}
    {part : Option Int × List (Located LexicalError) × Cursor}
    (h : exponentPart? c = some part) : c.Moves part.2.2 := by
  unfold exponentPart? at h
  split at h
  · obtain rfl := Option.some.inj h
    exact (moves_advance c).trans (readExponent_moves _)
  · cases h

/-- The reader of a decimal number moves. -/
theorem readDecimalNumber_moves (limit : Nat) (c : Cursor) :
    c.Moves (readDecimalNumber limit c).behind := by
  have hfraction :=
    (moves_run (Character.isDigitOf 10) c).trans (fractionRun_moves _)
  unfold readDecimalNumber
  dsimp only
  split
  · rename_i hpart
    exact hfraction.trans (exponentPart?_moves hpart)
  · exact hfraction

/-! ## Tokens -/

/-- A comment goes on behind what opens it. -/
theorem liveRun_moves_readSymbol (limit : Nat) (c : Cursor) :
    (liveRun [] c.position c.rest).2.Moves (readSymbol limit c).behind := by
  unfold readSymbol
  dsimp only
  split
  · exact moves_run _ _
  · split
    · exact commentRun_moves _ _
    · split <;> exact .refl _

/-- The reader of symbols and comments moves. -/
theorem readSymbol_moves (limit : Nat) (c : Cursor) :
    c.Moves (readSymbol limit c).behind :=
  (liveRun_moves [] c.position c.rest).trans (liveRun_moves_readSymbol limit c)

/-- Every reader moves forward. -/
theorem readFrom_moves (limit : Nat) (first : Char) (c : Cursor) :
    c.Moves (readFrom limit first c).behind := by
  unfold readFrom
  split
  · exact readSymbol_moves limit c
  · split
    · exact moves_run _ c
    · split
      · unfold readNumber
        split
        · exact readRadixNumber_moves limit c
        · exact readDecimalNumber_moves limit c
      · split
        · exact (moves_advance c).trans (bodyRun_moves _ _ _)
        · exact moves_advance c

namespace Lexed

/-- A token stands at or behind a place.  It is not empty unless it is the end of
the text, about which nothing can be wrong. -/
structure StandsFrom (offset : Nat) (l : Lexed) : Prop where
  start_le : offset ≤ l.token.span.start.offset
  start_le_stop : l.token.span.start.offset ≤ l.token.span.stop.offset
  wide : l.token.kind = .endOfText ∧ l.notes.error = none ∨
    l.token.span.start.offset < l.token.span.stop.offset

/-- A token that stands from one offset on stands from an earlier one on. -/
theorem StandsFrom.mono {offset earlier : Nat} {l : Lexed} (h : l.StandsFrom offset)
    (hle : earlier ≤ offset) : l.StandsFrom earlier :=
  ⟨Nat.le_trans hle h.start_le, h.start_le_stop, h.wide⟩

/-- Only the end of the text is empty, and it has no error. -/
theorem StandsFrom.width_pos {offset : Nat} {l : Lexed} (h : l.StandsFrom offset)
    (hl : l.token.kind ≠ .endOfText ∨ l.notes.error ≠ none) :
    l.token.span.start.offset < l.token.span.stop.offset := by
  rcases h.wide with ⟨hkind, herror⟩ | hwide
  · exact absurd herror (hl.resolve_left fun hne => hne hkind)
  · exact hwide

/-- The reader of a token moves. -/
theorem next_moves (limit : Nat) (c : Cursor) : c.Moves (next limit c).2 := by
  have hskip := moves_skip Character.isBlank c
  unfold next
  dsimp only
  split
  · exact hskip
  · exact hskip.trans (readFrom_moves limit _ _)

/-- The cursor moves right behind the next token. -/
theorem next_stop (limit : Nat) (c : Cursor) :
    (next limit c).1.token.span.stop = (next limit c).2.position := by
  unfold next
  dsimp only
  split <;> rfl

/-- The next token stands behind the cursor. -/
theorem next_standsFrom (limit : Nat) {c : Cursor} (hc : c.Solid) :
    (next limit c).1.StandsFrom c.position.offset := by
  have hskip := moves_skip Character.isBlank c
  have hstart := hskip.offset_le hc
  unfold next
  dsimp only
  split
  · exact ⟨hstart, Nat.le_refl _, .inl ⟨rfl, rfl⟩⟩
  · rename_i first hfirst
    have hread := readFrom_moves limit first (c.skip Character.isBlank)
    have hwidth : (c.skip Character.isBlank).position.offset <
        (readFrom limit first
          (c.skip Character.isBlank)).behind.position.offset := by
      have hlength := readFrom_length_lt limit hfirst
      have hadd := hread.offset_add_length_le (hskip.solid hc)
      omega
    exact ⟨hstart, Nat.le_of_lt hwidth, .inr hwidth⟩

/-- Tokens that stand behind each other. -/
abbrev Ordered (ls : List Lexed) : Prop :=
  ls.Pairwise fun l k => l.token.span.stop.offset ≤ k.token.span.start.offset

/-- The tokens from a cursor on stand behind it, in order. -/
theorem all_ordered (limit : Nat) {c : Cursor} (hc : c.Solid) :
    (∀ l ∈ all limit c, l.StandsFrom c.position.offset) ∧
      Ordered (all limit c) := by
  fun_induction all limit c with
  | case1 c step _ =>
      refine ⟨fun l hl => ?_, List.pairwise_singleton _ _⟩
      rw [List.mem_singleton.mp hl]
      exact next_standsFrom limit hc
  | case2 c step _ ih =>
      have hmoves := next_moves limit c
      obtain ⟨hbehind, hordered⟩ := ih (hmoves.solid hc)
      refine ⟨fun l hl => ?_, List.pairwise_cons.mpr ⟨fun k hk => ?_, hordered⟩⟩
      · rcases List.mem_cons.mp hl with rfl | hl
        · exact next_standsFrom limit hc
        · exact (hbehind l hl).mono (hmoves.offset_le hc)
      · have hstart := (hbehind k hk).start_le
        rw [← next_stop] at hstart
        exact hstart

end Lexed

/-- Every logical character of a text stands for at least one raw character. -/
theorem Glyph.width_pos_of_mem (chars : List Char) :
    ∀ g ∈ Glyph.ofChars chars, 0 < g.width := by
  fun_induction Glyph.ofChars chars with
  | case1 => simp
  | case2 rest ih => simpa using ih
  | case3 rest ih => simpa using ih
  | case4 c rest _ _ ih => simpa using ih

/-- The tokens of a text follow each other without overlap. -/
theorem Lexed.ofText_ordered (limit : Nat) (source : String) :
    (∀ l ∈ Lexed.ofText limit source, l.StandsFrom 0) ∧
      Lexed.Ordered (Lexed.ofText limit source) := by
  have hsolid : (Cursor.ofText source).Solid := Glyph.width_pos_of_mem source.toList
  obtain ⟨hstands, hordered⟩ := Lexed.all_ordered limit hsolid
  exact ⟨fun l hl => (hstands l hl).mono (Nat.zero_le _), hordered⟩

end ScriptLang
