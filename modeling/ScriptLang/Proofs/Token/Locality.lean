import ScriptLang.Proofs.Token.Embedding

/-!
# What a token depends on

Two things can be done to a text without any effect on the tokens before its end:
all of it can be moved to another place, and something can be put behind it.  Both
are done here at once, by the embedding `Embedding.carry`.
-/

namespace ScriptLang

namespace Glyph

/-- A text that ends in a character which is no part of a line break has the logical
characters of its own, whatever stands behind it. -/
theorem ofChars_append (chars more : List Char)
    (hlast : ∀ c, chars.getLast? = some c → c ≠ '\n' ∧ c ≠ '\r') :
    ofChars (chars ++ more) = ofChars chars ++ ofChars more := by
  have htail : ∀ (before : List Char) {rest : List Char},
      (∀ c, (before ++ rest).getLast? = some c → c ≠ '\n' ∧ c ≠ '\r') →
      ∀ c, rest.getLast? = some c → c ≠ '\n' ∧ c ≠ '\r' := by
    intro before rest h c hc
    exact h c (by rw [List.getLast?_append, hc, Option.some_or])
  fun_induction ofChars chars with
  | case1 => rfl
  | case2 rest ih =>
      have hrest := ih (htail ['\r', '\n'] hlast)
      simp only [List.cons_append, ofChars, hrest]
  | case3 rest ih =>
      have hrest := ih (htail ['\n', '\r'] hlast)
      simp only [List.cons_append, ofChars, hrest]
  | case4 c rest hcr hlf ih =>
      have hrest := ih (htail [c] hlast)
      rw [List.cons_append, ofChars.eq_4, hrest, List.cons_append]
      · intro rest' hc hbehind
        cases rest with
        | nil => exact (hlast c rfl).2 hc
        | cons d rest => exact hcr rest hc (by rw [(List.cons.inj hbehind).1])
      · intro rest' hc hbehind
        cases rest with
        | nil => exact (hlast c rfl).1 hc
        | cons d rest => exact hlf rest hc (by rw [(List.cons.inj hbehind).1])

/-- The last logical character of a text is what its last character is taken for. -/
theorem getLast?_ofChars (chars : List Char) :
    (ofChars chars).getLast?.map Glyph.char = chars.getLast?.map fun c =>
      if isLineBreak c then '\n' else c := by
  have hlast : ∀ {α β : Type} (f : α → β) (a : α) (rest : List α),
      (a :: rest).getLast?.map f = some ((rest.getLast?.map f).getD (f a)) := by
    intro α β f a rest
    rw [List.getLast?_cons]
    cases rest.getLast? <;> rfl
  fun_induction ofChars chars with
  | case1 => rfl
  | case2 rest ih =>
      rw [List.getLast?_cons_cons, hlast, hlast, ih]
      rfl
  | case3 rest ih =>
      rw [List.getLast?_cons_cons, hlast, hlast, ih]
      rfl
  | case4 c rest _ _ ih => rw [hlast, hlast, ih]

end Glyph

/-- A map of places that goes past characters as a text does. -/
def Carries (φ : Position → Position) : Prop :=
  ∀ {p : Position}, 0 < p.line → ∀ g : Glyph, φ (p.after g) = (φ p).after g

theorem carries_id : Carries id := fun _ _ => rfl

/-- A shift goes past characters as a text does. -/
theorem carries_shift (base : Position) : Carries base.shift :=
  fun hp g => Position.after_shift base hp g

/-- A text that is moved, with more text behind it. -/
def Embedding.carry (hφ : Carries φ) (more : List Glyph) : Embedding :=
  ⟨φ, fun _ g => g, more, fun _ _ => rfl, fun hp g => (hφ hp g).symm⟩

/-- The characters of a text that is moved, with more text behind it. -/
theorem Embedding.glyphs_carry (hφ : Carries φ) (more : List Glyph)
    (here : Position) (rest : List Glyph) :
    (carry hφ more).glyphs here rest = rest ++ more := by
  induction rest generalizing here with
  | nil => rfl
  | cons g rest ih => rw [glyphs_cons, ih, List.cons_append]; rfl

/-- The counterpart of a cursor is moved, with more text behind it. -/
theorem Cursor.embedded_carry (hφ : Carries φ) (more : List Glyph) (c : Cursor) :
    c.embedded (.carry hφ more) = ⟨φ c.position, c.rest ++ more⟩ := by
  rw [embedded, Embedding.glyphs_carry]
  rfl

open Cursor

namespace Lexed

variable {φ : Position → Position} {more : List Glyph} {c : Cursor}

/-- A token that keeps clear of what stands behind the text is the same there. -/
theorem next_behind (hc : c.Open more) (limit : Nat)
    (hleft : (next limit c).2.rest ≠ [] ∨
      (next limit c).1.token.lexeme = .symbol .semicolon) :
    next limit ⟨c.position, c.rest ++ more⟩ =
      ((next limit c).1, ⟨(next limit c).2.position,
        (next limit c).2.rest ++ more⟩) := by
  have hnext := next_embedded (e := .carry carries_id more) hc limit (.inr hleft)
  rw [embedded_carry, embedded_carry] at hnext
  exact hnext.trans (congrArg (·, _) (moved_id _))

/-- The tokens of a text that is moved are the tokens of the text, moved. -/
theorem all_moved (hφ : Carries φ) (limit : Nat) (hline : 0 < c.position.line) :
    all limit ⟨φ c.position, c.rest⟩ = (all limit c).map (Lexed.moved φ) := by
  have hcursor : c.embedded (.carry hφ []) = ⟨φ c.position, c.rest⟩ := by
    rw [embedded_carry, List.append_nil]
  rw [← hcursor]
  exact all_embedded rfl limit hline

/-! ## The last token of a text -/

/-- A token that is not the end of the text is of another kind. -/
theorem kind_ne_endOfText {t : Token} (h : t.lexeme ≠ .endOfText) :
    t.kind ≠ .endOfText := by
  obtain ⟨lexeme, span⟩ := t
  cases lexeme <;> simp_all [Token.kind, Lexeme.kind]

/-- The end of the text is a token. -/
theorem exists_endOfText (limit : Nat) (c : Cursor) :
    ∃ l ∈ all limit c, l.token.lexeme = .endOfText := by
  fun_induction all limit c with
  | case1 c step hend => exact ⟨step.1, List.mem_singleton_self _, hend⟩
  | case2 c step hend ih =>
      obtain ⟨l, hl, hlast⟩ := ih
      exact ⟨l, List.mem_cons_of_mem _ hl, hlast⟩

/-- No token goes past the end of the text. -/
theorem stop_le_of_mem_all (limit : Nat) (hc : c.Solid) {l : Lexed}
    (hl : l ∈ all limit c) :
    l.token.span.stop.offset ≤ (c.position.behind c.rest).offset := by
  have hnext : ∀ {c : Cursor}, c.Solid →
      (next limit c).1.token.span.stop.offset ≤
        (c.position.behind c.rest).offset := by
    intro c hc
    have hmoves := next_moves limit c
    rw [next_stop, ← hmoves.behind_eq]
    exact (moves_behind _ _).offset_le (hmoves.solid hc)
  fun_induction all limit c with
  | case1 c step hend =>
      rw [List.mem_singleton.mp hl]
      exact hnext hc
  | case2 c step hend ih =>
      have hmoves := next_moves limit c
      rcases List.mem_cons.mp hl with rfl | hl
      · exact hnext hc
      · rw [← hmoves.behind_eq]
        exact ih (hmoves.solid hc) hl

/-- The end of the text, at a place. -/
def endAt (p : Position) : Lexed := ⟨⟨.endOfText, Span.point p⟩, ⟨none, []⟩⟩

/-- The only token of the empty text is its end. -/
theorem all_nil (limit : Nat) (here : Position) :
    all limit ⟨here, []⟩ = [endAt here] :=
  all_of_endOfText (c := ⟨here, []⟩) rfl

/-- A text that ends in a semicolon, which is a token, has the tokens of its own,
whatever stands behind it. -/
theorem all_behind (limit : Nat) (hc : c.Open more) (hsolid : c.Solid) {k : Lexed}
    (hk : k ∈ all limit c) (hsemicolon : k.token.lexeme = .symbol .semicolon)
    (hstop : k.token.span.stop = c.position.behind c.rest) :
    ∃ before, (∀ l ∈ before, l.token.kind ≠ .endOfText) ∧
      all limit c = before ++ [k, endAt (c.position.behind c.rest)] ∧
      all limit ⟨c.position, c.rest ++ more⟩ =
        before ++ k :: all limit ⟨c.position.behind c.rest, more⟩ := by
  fun_induction all limit c with
  | case1 c step hend =>
      rw [List.mem_singleton.mp hk] at hsemicolon
      exact absurd (hsemicolon.symm.trans hend) (by simp)
  | case2 c step hend ih =>
      have hmoves := next_moves limit c
      have hbehind := hmoves.behind_eq
      -- With more text behind, the tokens begin with the same one.
      have hcons : (step.2.rest ≠ [] ∨ step.1.token.lexeme = .symbol .semicolon) →
          all limit ⟨c.position, c.rest ++ more⟩ =
            step.1 :: all limit ⟨step.2.position, step.2.rest ++ more⟩ := by
        intro hleft
        have hnext := next_behind hc limit hleft
        rw [all_of_ne (by rw [hnext]; exact hend), hnext]
      rcases List.mem_cons.mp hk with rfl | hk
      · have hposition : step.2.position = c.position.behind c.rest :=
          (next_stop limit c).symm.trans hstop
        have hnil : step.2.rest = [] :=
          rest_eq_nil (hmoves.solid hsolid) (hposition.trans hbehind.symm)
        have hend : step.2 = ⟨c.position.behind c.rest, []⟩ := by
          rw [← hposition, ← hnil]
        refine ⟨[], by simp, ?_, ?_⟩
        · rw [hend, all_nil]
          rfl
        · rw [hcons (.inr hsemicolon), hend]
          rfl
      · have hne : step.2.rest ≠ [] := by
          intro hnil
          have hend : step.2 = ⟨step.2.position, []⟩ := by rw [← hnil]
          rw [hend, all_nil, List.mem_singleton] at hk
          rw [hk] at hsemicolon
          cases hsemicolon
        obtain ⟨before, hbefore, hall, hcarried⟩ :=
          ih (hc.moves hmoves (.inr hne)) (hmoves.solid hsolid) hk
            (hstop.trans hbehind.symm)
        refine ⟨step.1 :: before, ?_, ?_, ?_⟩
        · exact List.forall_mem_cons.mpr ⟨kind_ne_endOfText hend, hbefore⟩
        · rw [hall, hbehind, List.cons_append]
        · rw [hcons (.inl hne), hcarried, hbehind, List.cons_append]

end Lexed

end ScriptLang
