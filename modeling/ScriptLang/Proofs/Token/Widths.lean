import ScriptLang.Proofs.Source.LineBreaks
import ScriptLang.Proofs.Token.Embedding

/-!
# Widths of characters

Readers look at logical characters and never at their widths.  The widths only add
up to the offsets of places.  So when the characters of a text are given other
widths, its tokens stay the same, at the other offsets.  This is the embedding
`Embedding.stretch`.
-/

namespace ScriptLang

/-- A logical character at a place, with the width that it has when offsets are
changed. -/
def Glyph.stretched (raw : Nat → Nat) (here : Position) (g : Glyph) : Glyph :=
  { g with width := raw (here.after g).offset - raw here.offset }

/-- Past a character with its new width, the offset is the changed one. -/
theorem Glyph.after_stretched {raw : Nat → Nat} (hraw : Monotone raw)
    (here : Position) (g : Glyph) :
    (here.stretch raw).after (g.stretched raw here) =
      (here.after g).stretch raw := by
  have hoffset : raw here.offset + (raw (here.offset + g.width) - raw here.offset) =
      raw (here.offset + g.width) :=
        Nat.add_sub_cancel' (hraw (Nat.le_add_right _ _))
  rw [stretched, Cursor.offset_after]
  unfold Position.after Position.stretch
  dsimp only
  rw [hoffset]
  split <;> rfl

/-- A text with changed offsets. -/
def Embedding.stretch {raw : Nat → Nat} (hraw : Monotone raw) : Embedding :=
  ⟨Position.stretch raw, Glyph.stretched raw, [], fun _ _ => rfl,
    fun {here} _ g => Glyph.after_stretched hraw here g⟩

/-- The characters of a text get their widths back at the offsets that they have in
the text. -/
theorem Embedding.glyphs_stretch_narrow {raw : Nat → Nat} (hraw : Monotone raw)
    (before glyphs : List Glyph) (h : raw = Glyph.rawOffset (before ++ glyphs))
    (here : Position) (hhere : here.offset = before.length) :
    (stretch hraw).glyphs here (glyphs.map Glyph.narrow) = glyphs := by
  induction glyphs generalizing before here with
  | nil => rfl
  | cons g glyphs ih =>
      have hnext : (here.after g.narrow).offset = (before ++ [g]).length := by
        rw [Cursor.offset_after, hhere, List.length_append]
        rfl
      have hrest :=
        ih (before ++ [g]) (by rw [h, List.append_assoc, List.singleton_append])
          _ hnext
      have hwidth : raw (here.after g.narrow).offset - raw here.offset =
          g.width := by
        have hstart := Glyph.rawOffset_append before (g :: glyphs) 0
        have hstop := Glyph.rawOffset_append before (g :: glyphs) 1
        rw [Glyph.rawOffset, Nat.add_zero] at hstart
        rw [Glyph.rawOffset, Glyph.rawOffset_zero] at hstop
        rw [h, hnext, hhere, List.length_append, List.length_singleton,
          hstart, hstop]
        omega
      have hglyph : (stretch hraw).glyph here g.narrow = g := by
        show Glyph.stretched raw here g.narrow = g
        rw [Glyph.stretched, hwidth]
        rfl
      rw [List.map_cons, glyphs_cons, hglyph, hrest]

/-- A text whose characters all have width one, with the offsets that belong to
it. -/
theorem Cursor.embedded_narrow {glyphs : List Glyph}
    (hraw : Monotone (Glyph.rawOffset glyphs)) :
    (⟨Position.start, glyphs.map Glyph.narrow⟩ : Cursor).embedded (.stretch hraw) =
      ⟨Position.start, glyphs⟩ := by
  have hplace : Position.start.stretch (Glyph.rawOffset glyphs) =
      Position.start := by
    rw [Position.stretch, Position.start, Glyph.rawOffset_zero]
  have hglyphs :=
    Embedding.glyphs_stretch_narrow hraw [] glyphs rfl Position.start rfl
  rw [embedded, hglyphs]
  exact congrArg (Cursor.mk · glyphs) hplace

namespace Lexed

/-- The tokens of a text are those of its characters with width one, at the offsets
that belong to it. -/
theorem all_narrow {glyphs : List Glyph} (hraw : Monotone (Glyph.rawOffset glyphs))
    (limit : Nat) :
    all limit ⟨Position.start, glyphs⟩ =
      (all limit ⟨Position.start, glyphs.map Glyph.narrow⟩).map
      (Lexed.moved (Position.stretch (Glyph.rawOffset glyphs))) := by
  rw [← Cursor.embedded_narrow hraw]
  exact all_embedded rfl limit Nat.one_pos

/-- The tokens of a text are those of the text with unified line breaks, at the
offsets that belong to it. -/
theorem ofText_unified (limit : Nat) (source : String) :
    ofText limit source = (ofText limit (LineBreak.unified source)).map
      (Lexed.moved (Position.stretch
        (Glyph.rawOffset (Glyph.ofChars source.toList)))) := by
  have hraw := Glyph.rawOffset_strictMono (Glyph.width_pos_of_mem source.toList)
  rw [ofText, ofText, Cursor.ofText, Cursor.ofText, LineBreak.unified,
    String.toList_ofList, Glyph.ofChars_unify]
  exact all_narrow hraw.monotone limit

end Lexed

end ScriptLang
