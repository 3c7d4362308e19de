import Mathlib.Data.List.DropRight
import Mathlib.Logic.Function.Iterate
import ScriptLang.Proofs.Source.LineBreaks
import ScriptLang.Proofs.Source.Shift
import ScriptLang.Source.Scanner

/-!
# The way of a scanner through a text

A scanner reads two logical characters ahead of its place.  For all that it sees the
characters of the text with unified line breaks one after the other, and its place
counts what is behind it: the raw characters, the line feeds, and the characters
after the last line feed (`Scanner.ofText_walks`).  A step of it is a step of its
cursor, and a cursor that has moved on a number of times has as many logical
characters behind it and the others before it (`Cursor.iterate_advance`).

Which raw characters make up a logical one is said by `LineBreak.pieces`, which cuts
a raw text into its line breaks, as they are spelled, and its other characters.
-/

namespace ScriptLang

namespace LineBreak

/-- A raw text cut into line breaks and single other characters.  Line breaks are
found from left to right, the longer ones first; `pending` characters of the last
one found are still to be passed. -/
def pieces : Nat → List Char → List (List Char)
  | _, [] => []
  | pending + 1, _ :: rest => pieces pending rest
  | 0, c :: rest =>
    match spellings.find? fun spelling => spelling.isPrefixOf (c :: rest) with
    | some spelling => spelling :: pieces (spelling.length - 1) rest
    | none => [c] :: pieces 0 rest

/-- The character that a piece of a raw text is taken for. -/
def collapse (piece : List Char) : Char :=
  if piece ∈ spellings then '\n' else piece.headD '\n'

/-- The logical character that a piece of a raw text stands for. -/
def glyph (piece : List Char) : Glyph := ⟨collapse piece, piece.length⟩

/-- One raw character is a line feed or itself. -/
theorem collapse_singleton (c : Char) :
    collapse [c] = if Glyph.isLineBreak c then '\n' else c := by
  have hspelled : [c] ∈ spellings ↔ Glyph.isLineBreak c = true := by
    simp [spellings, Glyph.isLineBreak, or_assoc]
  simp only [collapse, hspelled, List.headD_cons]

/-- A character that is not followed by the other half of a line break is a piece of
its own. -/
theorem pieces_cons {c : Char} {rest : List Char}
    (hcr : ∀ rest', c = '\r' → rest = '\n' :: rest' → False)
    (hlf : ∀ rest', c = '\n' → rest = '\r' :: rest' → False) :
    pieces 0 (c :: rest) = [c] :: pieces 0 rest := by
  rw [pieces, Glyph.find?_spellings hcr hlf]
  by_cases hc : Glyph.isLineBreak c = true
  · rw [if_pos hc]
    rfl
  · rw [if_neg hc]

/-- The pieces of a raw text are all of it, and each stands for one of its logical
characters. -/
theorem pieces_spec (chars : List Char) :
    (pieces 0 chars).flatten = chars ∧
      (pieces 0 chars).map glyph = Glyph.ofChars chars := by
  fun_induction Glyph.ofChars chars with
  | case1 => exact ⟨rfl, rfl⟩
  | case2 rest ih =>
      have hpieces : pieces 0 ('\r' :: '\n' :: rest) = ['\r', '\n'] ::
        pieces 0 rest := rfl
      rw [hpieces, List.flatten_cons, List.map_cons, ih.1, ih.2]
      exact ⟨rfl, rfl⟩
  | case3 rest ih =>
      have hpieces : pieces 0 ('\n' :: '\r' :: rest) = ['\n', '\r'] ::
        pieces 0 rest := rfl
      rw [hpieces, List.flatten_cons, List.map_cons, ih.1, ih.2]
      exact ⟨rfl, rfl⟩
  | case4 c rest hcr hlf ih =>
      rw [pieces_cons hcr hlf, List.flatten_cons, List.map_cons, ih.1, ih.2, glyph,
        collapse_singleton]
      exact ⟨rfl, rfl⟩

end LineBreak

namespace Position

/-- The place behind the first pieces of a text counts what they are made up of and
what they stand for. -/
theorem behind_start (pieces : List (List Char)) :
    start.behind (pieces.map LineBreak.glyph) =
      let text := pieces.map LineBreak.collapse
      ⟨pieces.flatten.length, 1 + text.count '\n',
        1 + (text.rtakeWhile (· ≠ '\n')).length⟩ := by
  -- Whether the last piece is a line break decides about line and column.
  induction pieces using List.reverseRecOn with
  | nil => rfl
  | append_singleton pieces piece ih =>
      rw [List.map_append, List.map_singleton, behind,
        List.foldl_concat, ← behind, ih]
      simp only [after, LineBreak.glyph, List.map_append, List.map_singleton,
        List.flatten_concat, List.length_append, List.count_append,
        List.rtakeWhile_concat]
      by_cases hbreak : LineBreak.collapse piece = '\n'
      · simp [hbreak]
        omega
      · simp [hbreak]
        omega

end Position

namespace Cursor

/-- A cursor that has moved on a number of times has as many characters behind it,
unless there are fewer. -/
theorem iterate_advance (k : Nat) (c : Cursor) :
    advance^[k] c = ⟨c.position.behind (c.rest.take k), c.rest.drop k⟩ := by
  induction k generalizing c with
  | zero => rfl
  | succ k ih =>
      rw [Function.iterate_succ_apply, ih]
      obtain ⟨here, _ | ⟨g, rest⟩⟩ := c
      · simp [advance]
      · rfl

end Cursor

namespace Scanner

/-- Any number of steps of a scanner are as many of its cursor. -/
theorem cursor_iterate (k : Nat) (s : Scanner) :
    (advance^[k] s).cursor = Cursor.advance^[k] s.cursor :=
  (Function.Semiconj.iterate_right cursor_advance k).eq s

/-- Past the end of the text a scanner stays as it is. -/
theorem advance_of_current?_eq_none {s : Scanner} (h : s.current? = none) :
    s.advance = s := by
  have hcurrent : s.current = none := Option.map_eq_none_iff.mp h
  rw [advance]
  split
  · rfl
  · rename_i g hg
    rw [hcurrent] at hg
    cases hg

/-- The way of a scanner through a text.  The raw text is cut into pieces, one for
each character of the text with unified line breaks.  A scanner that has moved on
`k` times sees the characters number `k` and `k + 1` of that text, counted from
zero, if they exist.  Its offset is the number of raw characters in the first `k`
pieces; its line counts the line feeds among the first `k` characters, and its
column the characters behind the last of these line feeds, both from one.  Past the
end of the text it stays as it is. -/
theorem ofText_walks (source : String) (k : Nat) :
    let text := LineBreak.unify 0 source.toList
    let pieces := LineBreak.pieces 0 source.toList
    let s := advance^[k] (ofText source)
    pieces.flatten = source.toList ∧ pieces.map LineBreak.collapse = text ∧
      s.current? = text[k]? ∧ s.next? = text[k + 1]? ∧
      s.position = ⟨(pieces.take k).flatten.length, 1 + (text.take k).count '\n',
        1 + ((text.take k).rtakeWhile (· ≠ '\n')).length⟩ ∧
      advance^[k + text.length] (ofText source) =
        advance^[text.length] (ofText source) := by
  intro text pieces s
  obtain ⟨hflatten, hglyphs⟩ := LineBreak.pieces_spec source.toList
  have htext : text = pieces.map LineBreak.collapse := by
    show LineBreak.unify 0 source.toList = _
    rw [Glyph.unify_eq, ← hglyphs, List.map_map]
    rfl
  -- What the scanner has still to pass, whatever it has read ahead.
  have hcursor : ∀ k : Nat, (advance^[k] (ofText source)).cursor =
      ⟨Position.start.behind ((pieces.take k).map LineBreak.glyph),
        (pieces.map LineBreak.glyph).drop k⟩ := by
    intro k
    rw [cursor_iterate, cursor_ofText, Cursor.iterate_advance,
      List.map_take, hglyphs]
    rfl
  have hchar : ∀ i : Nat, ((pieces.map LineBreak.glyph)[i]?).map Glyph.char =
      text[i]? := by
    intro i
    rw [htext, List.getElem?_map, List.getElem?_map, Option.map_map]
    rfl
  have hcurrent : ∀ k : Nat, (advance^[k] (ofText source)).current? = text[k]? := by
    intro k
    rw [← current?_cursor, hcursor, Cursor.current?, List.head?_drop, hchar]
  refine ⟨hflatten, htext.symm, hcurrent k, ?_, ?_, ?_⟩
  · rw [← next?_cursor, hcursor, Cursor.next?, List.tail_drop,
      List.head?_drop, hchar]
  · rw [← position_cursor, hcursor, Position.behind_start, htext, List.map_take]
  · have hend : (advance^[text.length] (ofText source)).current? = none :=
      (hcurrent text.length).trans (List.getElem?_eq_none (Nat.le_refl _))
    rw [Function.iterate_add_apply]
    exact Function.iterate_fixed (advance_of_current?_eq_none hend) k

/-- Found from left to right, these are two line breaks of two characters each and
one of a single line feed. -/
example :
    let s := advance^[3] (ofText "x\n\r\r\n\ny")
    s.current? = some '\n' ∧ s.next? = some 'y' ∧ s.position = ⟨5, 3, 1⟩ := by
  decide +kernel

end Scanner

end ScriptLang
