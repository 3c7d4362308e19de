import Mathlib.Order.Monotone.Basic
import ScriptLang.Proofs.Source.Order
import ScriptLang.Proofs.Token.Order

/-!
# Ways to write a line break

Line breaks can be written in five ways.  `LineBreak.unify` writes all of them in
one way, with a single line feed.  The logical characters of a text do not change
thereby, except that each stands for one raw character (`Glyph.ofChars_unify`).  So
the places in the two texts have the same lines and columns, and their offsets are
those of the same logical characters (`Glyph.rawOffset`, `Position.stretch`).
-/

namespace ScriptLang

namespace LineBreak

/-- The ways to write a line break, the longer ones first. -/
def spellings : List (List Char) :=
  [['\r', '\n'], ['\n', '\r'], ['\n'], ['\r'], ['\u2028']]

/-- A raw text in which all line breaks are written with a single line feed.  They
are found from left to right, the longer ones first; `pending` characters of the
last one found are still to be passed. -/
def unify : Nat → List Char → List Char
  | _, [] => []
  | pending + 1, _ :: rest => unify pending rest
  | 0, c :: rest =>
    match spellings.find? fun spelling => spelling.isPrefixOf (c :: rest) with
    | some spelling => '\n' :: unify (spelling.length - 1) rest
    | none => c :: unify 0 rest

/-- A text in which all line breaks are written with a single line feed. -/
def unified (source : String) : String := String.ofList (unify 0 source.toList)

end LineBreak

namespace Glyph

/-- A logical character that stands for one raw character. -/
def narrow (g : Glyph) : Glyph := { g with width := 1 }

/-- The spelling of a line break that begins with a character which is not followed
by the other half of a longer one. -/
theorem find?_spellings {c : Char} {rest : List Char}
    (hcr : ∀ rest', c = '\r' → rest = '\n' :: rest' → False)
    (hlf : ∀ rest', c = '\n' → rest = '\r' :: rest' → False) :
    (LineBreak.spellings.find? fun spelling => spelling.isPrefixOf (c :: rest)) =
      if isLineBreak c then some [c] else none := by
  have hfirst : ['\r', '\n'].isPrefixOf (c :: rest) = false := by
    rw [Bool.eq_false_iff]
    intro h
    obtain ⟨rest', heq⟩ := List.isPrefixOf_iff_prefix.mp h
    obtain ⟨hc, hrest⟩ := List.cons.inj heq
    exact hcr rest' hc.symm hrest.symm
  have hsecond : ['\n', '\r'].isPrefixOf (c :: rest) = false := by
    rw [Bool.eq_false_iff]
    intro h
    obtain ⟨rest', heq⟩ := List.isPrefixOf_iff_prefix.mp h
    obtain ⟨hc, hrest⟩ := List.cons.inj heq
    exact hlf rest' hc.symm hrest.symm
  simp only [LineBreak.spellings, List.find?_cons, hfirst, hsecond,
    List.isPrefixOf_cons_cons, List.isPrefixOf_nil_left, Bool.and_true,
    List.find?_nil, isLineBreak]
  by_cases hn : c = '\n'
  · subst hn
    rfl
  · by_cases hr : c = '\r'
    · subst hr
      rfl
    · by_cases hu : c = '\u2028'
      · subst hu
        rfl
      · have hne : ∀ d, c ≠ d → (d == c) = false :=
          fun d hd => beq_eq_false_iff_ne.mpr (Ne.symm hd)
        simp [hn, hr, hu, hne _ hn, hne _ hr, hne _ hu]

/-- The logical characters are those of the text with unified line breaks. -/
theorem unify_eq (chars : List Char) :
    LineBreak.unify 0 chars = (ofChars chars).map Glyph.char := by
  fun_induction ofChars chars with
  | case1 => rfl
  | case2 rest ih => simp [LineBreak.unify, LineBreak.spellings, ih]
  | case3 rest ih => simp [LineBreak.unify, LineBreak.spellings, ih]
  | case4 c rest hcr hlf ih =>
      rw [LineBreak.unify, find?_spellings hcr hlf, List.map_cons, ← ih]
      by_cases hc : isLineBreak c = true
      · rw [if_pos hc, if_pos hc]
        rfl
      · rw [if_neg hc, if_neg hc]

/-- Characters that stand for themselves in a text. -/
def plain (chars : List Char) : List Glyph := chars.map fun c => ⟨c, 1⟩

theorem map_char_plain (chars : List Char) :
    (plain chars).map Glyph.char = chars := by
  rw [plain, List.map_map]
  exact List.map_id chars

theorem length_plain (chars : List Char) : (plain chars).length = chars.length :=
  List.length_map _

/-- A text without other line breaks than line feeds is its own logical text. -/
theorem ofChars_eq_map {chars : List Char}
    (h : ∀ c ∈ chars, isLineBreak c = true → c = '\n') :
    ofChars chars = chars.map fun c => ⟨c, 1⟩ := by
  fun_induction ofChars chars with
  | case1 => rfl
  | case2 rest ih => exact absurd (h '\r' List.mem_cons_self rfl) (by decide)
  | case3 rest ih => exact absurd (h '\r' (by simp) rfl) (by decide)
  | case4 c rest _ _ ih =>
      obtain ⟨hc, hrest⟩ := List.forall_mem_cons.mp h
      rw [ih hrest, List.map_cons]
      split
      · rename_i hbreak
        rw [hc hbreak]
      · rfl

/-- A text without line breaks is read character by character. -/
theorem ofChars_eq_plain {chars : List Char}
    (h : ∀ c ∈ chars, isLineBreak c = false) :
    ofChars chars = plain chars :=
  ofChars_eq_map fun c hc hbreak => absurd hbreak (by simp [h c hc])

/-- Among the logical characters of a text, the line feed is the only line break. -/
theorem eq_of_isLineBreak {chars : List Char} {g : Glyph} (hg : g ∈ ofChars chars)
    (hbreak : isLineBreak g.char = true) : g.char = '\n' := by
  fun_induction ofChars chars with
  | case1 => cases hg
  | case2 rest ih =>
      rcases List.mem_cons.mp hg with rfl | hg
      · rfl
      · exact ih hg
  | case3 rest ih =>
      rcases List.mem_cons.mp hg with rfl | hg
      · rfl
      · exact ih hg
  | case4 c rest _ _ ih =>
      rcases List.mem_cons.mp hg with rfl | hg
      · dsimp only at hbreak ⊢
        split
        · rfl
        · rename_i hc
          rw [if_neg hc] at hbreak
          exact absurd hbreak hc
      · exact ih hg

/-- Unified line breaks change nothing but the widths of logical characters. -/
theorem ofChars_unify (chars : List Char) :
    ofChars (LineBreak.unify 0 chars) = (ofChars chars).map narrow := by
  rw [unify_eq, ofChars_eq_map, List.map_map]
  · rfl
  · intro c hc hbreak
    obtain ⟨g, hg, rfl⟩ := List.mem_map.mp hc
    exact eq_of_isLineBreak hg hbreak

/-! ## Offsets -/

/-- The offset of the logical character with a number in a text, as if characters of
width one stood behind. -/
def rawOffset : List Glyph → Nat → Nat
  | [], k => k
  | _ :: _, 0 => 0
  | g :: glyphs, k + 1 => g.width + rawOffset glyphs k

theorem rawOffset_zero (glyphs : List Glyph) : rawOffset glyphs 0 = 0 := by
  cases glyphs <;> rfl

/-- Raw characters before a place in the second of two texts. -/
theorem rawOffset_append (before glyphs : List Glyph) (k : Nat) :
    rawOffset (before ++ glyphs) (before.length + k) =
      rawOffset before before.length + rawOffset glyphs k := by
  induction before with
  | nil => simp [rawOffset]
  | cons g before ih =>
      have hlength : (g :: before).length + k = before.length + k + 1 := by
        rw [List.length_cons]
        omega
      rw [hlength, List.cons_append, rawOffset, ih, List.length_cons, rawOffset,
        Nat.add_assoc]

/-- More logical characters have more raw ones. -/
theorem rawOffset_strictMono {glyphs : List Glyph} (h : ∀ g ∈ glyphs, 0 < g.width) :
    StrictMono (rawOffset glyphs) := by
  apply strictMono_nat_of_lt_succ
  intro k
  induction glyphs generalizing k with
  | nil => exact Nat.lt_succ_self k
  | cons g glyphs ih =>
      obtain ⟨hg, hglyphs⟩ := List.forall_mem_cons.mp h
      cases k with
      | zero =>
          rw [rawOffset, rawOffset]
          omega
      | succ k =>
          rw [rawOffset, rawOffset]
          exact Nat.add_lt_add_left (ih hglyphs k) g.width

end Glyph

namespace Position

/-- A place with the same line and column at another offset. -/
def stretch (raw : Nat → Nat) (p : Position) : Position :=
  { p with offset := raw p.offset }

variable {raw : Nat → Nat}

/-- Offsets that are changed in order leave places in order. -/
theorem stretch_keepsOrder (hraw : StrictMono raw) : KeepsOrder (stretch raw) := by
  intro a b hab
  have hcompare : compare (raw a.offset) (raw b.offset) =
      compare a.offset b.offset := by
    simp only [Nat.compare_eq_ite_lt, hraw.lt_iff_lt]
  show (compare (raw a.offset) (raw b.offset)).then _ ≠ .gt
  rw [hcompare]
  exact hab

end Position

end ScriptLang
