import ScriptLang.Source.Cursor

/-!
# Texts behind other texts

When a text is put behind another one, its places shift by the extent of that other
text: offsets and lines by the same amount everywhere, and columns on the first line
only.  A shift keeps the order of places.
-/

namespace ScriptLang

namespace Position

/-- Where a place of a text is found when the text begins at `base`. -/
def shift (base p : Position) : Position :=
  ⟨base.offset + p.offset, base.line - 1 + p.line,
    if p.line = 1 then base.column - 1 + p.column else p.column⟩

theorem compare_add_left (n a b : Nat) : compare (n + a) (n + b) = compare a b := by
  simp only [Nat.compare_eq_ite_lt, Nat.add_lt_add_iff_left]

/-- A shift keeps the order of places. -/
theorem order_shift (base a b : Position) :
    (base.shift a).order (base.shift b) = a.order b := by
  unfold order shift
  rw [compare_add_left, compare_add_left]
  by_cases hline : a.line = b.line
  · rw [hline]
    split
    · rw [compare_add_left]
    · rfl
  · -- Columns do not count on different lines.
    have hdecided : compare a.line b.line ≠ .eq :=
      fun h => hline (Nat.compare_eq_eq.mp h)
    cases hcompare : compare a.line b.line with
    | eq => exact absurd hcompare hdecided
    | lt => rfl
    | gt => rfl

/-- A shift keeps the later of two places. -/
theorem later_shift (base a b : Position) :
    base.shift (a.later b) = (base.shift a).later (base.shift b) := by
  unfold later
  rw [order_shift]
  split <;> rfl

/-- A shift keeps the earlier of two places. -/
theorem earlier_shift (base a b : Position) :
    base.shift (a.earlier b) = (base.shift a).earlier (base.shift b) := by
  unfold earlier
  rw [order_shift]
  split <;> rfl

/-- A shift goes past characters as the text does. -/
theorem after_shift (base : Position) {p : Position} (hp : 0 < p.line) (g : Glyph) :
    base.shift (p.after g) = (base.shift p).after g := by
  unfold after shift
  by_cases hg : g.char = '\n'
  · have hline : p.line + 1 ≠ 1 := by omega
    simp only [if_pos hg, if_neg hline, Nat.add_assoc]
  · simp only [if_neg hg]
    split <;> simp only [Nat.add_assoc]

/-- A place that exists: lines and columns are counted from one. -/
def Real (p : Position) : Prop := 0 < p.line ∧ 0 < p.column

theorem real_start : start.Real := ⟨Nat.one_pos, Nat.one_pos⟩

/-- What stands after a place that a text can have has one. -/
theorem Real.after {p : Position} (hp : p.Real) (g : Glyph) : (p.after g).Real := by
  unfold Position.after
  split
  · exact ⟨Nat.succ_pos _, Nat.one_pos⟩
  · exact ⟨hp.1, Nat.succ_pos _⟩

/-- A text that begins at `base` begins there. -/
theorem shift_start {base : Position} (hbase : base.Real) :
    base.shift start = base := by
  obtain ⟨hline, hcolumn⟩ := hbase
  obtain ⟨offset, line, column⟩ := base
  simp only [shift, start] at hline hcolumn ⊢
  congr 1
  · omega
  · simp only [if_true]
    omega

/-- The place right behind some characters. -/
def behind (p : Position) (glyphs : List Glyph) : Position := glyphs.foldl after p

/-- What stands behind a stretch of text has a place that a text can have. -/
theorem Real.behind {p : Position} (hp : p.Real) (glyphs : List Glyph) :
    (p.behind glyphs).Real := by
  induction glyphs generalizing p with
  | nil => exact hp
  | cons g glyphs ih => exact ih (hp.after g)

/-- The place right behind a text. -/
def extent (source : String) : Position :=
  start.behind (Glyph.ofChars source.toList)

theorem real_extent (source : String) : (extent source).Real := real_start.behind _

end Position

end ScriptLang
