import ScriptLang.Proofs.Token.Locality

/-!
# Tokens cover their text

Nothing of a text gets lost between its tokens but blanks, and nothing that is
noticed about a token is noticed elsewhere.  `Lexed.Covers` says what this means for
the raw characters of the text; that the tokens of every text are such a cover is
`Lexed.ofText_covers`.

There are two parts to it.

1.  A reader reports only places on its way: those of the characters it goes past,
    and the one behind the last of them (`Cursor.Passes`).  Its way is the span of
    the token.
2.  A cursor stands between two raw characters of the text, and what it has left is
    the text from there on (`Cursor.In`).  Whatever it goes past is blank if it is
    skipped, and in the span of a token otherwise.
-/

namespace ScriptLang

namespace Cursor

variable {c d c' d' : Cursor} {p : Position}

/-! ## Places on the way -/

/-- A place on the way from one cursor to another, both ends included. -/
def Passes (c d : Cursor) (p : Position) : Prop :=
  ∃ e : Cursor, c.Moves e ∧ e.Moves d ∧ e.position = p

/-- On its way a cursor passes the place that it starts from. -/
theorem Moves.passes_start (h : c.Moves d) : c.Passes d c.position :=
  ⟨c, .refl c, h, rfl⟩

/-- On its way a cursor passes the place that it comes to. -/
theorem Moves.passes_stop (h : c.Moves d) : c.Passes d d.position :=
  ⟨d, h, .refl d, rfl⟩

/-- A place on the way is on every way that goes further on both sides. -/
theorem Passes.widen (h : c'.Passes d' p) (hc : c.Moves c')
    (hd : d'.Moves d) : c.Passes d p := by
  obtain ⟨e, hbefore, hbehind, hposition⟩ := h
  exact ⟨e, hc.trans hbefore, hbehind.trans hd, hposition⟩

/-- What is passed on the last part of a way is passed on the way. -/
theorem Passes.before (h : c'.Passes d p) (hc : c.Moves c') : c.Passes d p :=
  h.widen hc (.refl d)

/-- What is passed on the first part of a way is passed on the way. -/
theorem Passes.behind (h : c.Passes d' p) (hd : d'.Moves d) : c.Passes d p :=
  h.widen (.refl c) hd

/-- A cursor that has moved at all stands further on. -/
theorem Moves.eq_or_offset_lt (h : c.Moves d) (hc : c.Solid) :
    c = d ∨ c.position.offset < d.position.offset := by
  cases h with
  | refl => exact .inl rfl
  | @step here g rest _ h =>
      have hwidth := hc g List.mem_cons_self
      have hle := h.offset_le fun g hg => hc g (List.mem_cons_of_mem _ hg)
      rw [offset_after] at hle
      exact .inr (by dsimp only; omega)

/-- A way does not lead to an earlier place. -/
theorem Moves.order_ne_gt (h : c.Moves d) (hc : c.Solid) :
    c.position.order d.position ≠ .gt := by
  unfold Position.order
  rcases h.eq_or_offset_lt hc with rfl | hlt
  · simp
  · rw [Nat.compare_eq_lt.mpr hlt]
    simp

/-- A run passes the characters that it takes. -/
theorem mem_run_passes {q : Char → Bool} {item : Placed} (h : item ∈ (c.run q).1) :
    c.Passes (c.run q).2 item.position := by
  obtain ⟨here, rest⟩ := c
  have hmoves := moves_run q ⟨here, rest⟩
  unfold run at h hmoves ⊢
  induction rest generalizing here with
  | nil => cases h
  | cons g rest ih =>
      unfold run.go at h hmoves ⊢
      dsimp only at h hmoves ⊢
      split at h
      · rename_i hg
        simp only [if_pos hg] at hmoves ⊢
        rcases List.mem_cons.mp h with rfl | h
        · exact hmoves.passes_start
        · exact (ih _ h (moves_run q ⟨here.after g, rest⟩)).before (.step (.refl _))
      · cases h

end Cursor

open Cursor

variable {c : Cursor}

/-- The loop over a block comment passes the characters that it takes. -/
theorem mem_commentRun_passes {here : Position} {rest : List Glyph} {item : Placed}
    (h : item ∈ (commentRun here rest).1) :
    Passes ⟨here, rest⟩ (commentRun here rest).2.2 item.position := by
  have hmoves := commentRun_moves here rest
  fun_induction commentRun here rest with
  | case1 => cases h
  | case2 here g =>
      rw [List.mem_singleton.mp h]
      exact hmoves.passes_start
  | case3 => cases h
  | case4 here g k rest _ body closed behind heq ih =>
      rcases List.mem_cons.mp h with rfl | h
      · exact hmoves.passes_start
      · have hrest := commentRun_moves (here.after g) (k :: rest)
        rw [heq] at ih hrest
        exact (ih h hrest).before (.step (.refl _))

/-- The characters between the quotes of a literal, and where they end. -/
theorem bodyRun_passes (escaped : Bool) (here : Position) (rest : List Glyph) :
    Passes ⟨here, rest⟩ (bodyRun escaped here rest).behind
      (bodyRun escaped here rest).finish ∧
      ∀ item ∈ (bodyRun escaped here rest).body,
        Passes ⟨here, rest⟩ (bodyRun escaped here rest).behind item.position := by
  have hmoves := bodyRun_moves escaped here rest
  induction rest generalizing escaped here with
  | nil => exact ⟨hmoves.passes_start, by simp [bodyRun]⟩
  | cons g rest ih =>
      unfold bodyRun at hmoves ⊢
      split
      · exact ⟨(Moves.step (.refl _)).passes_start, by simp⟩
      · rename_i hbody
        rw [if_neg hbody] at hmoves
        obtain ⟨hfinish, hitems⟩ := ih _ (here.after g) (bodyRun_moves _ _ _)
        refine ⟨hfinish.before (.step (.refl _)), fun item h => ?_⟩
        rcases List.mem_cons.mp h with rfl | h
        · exact hmoves.passes_start
        · exact (hitems item h).before (.step (.refl _))

/-! ## What readers report -/

section Reports

variable {P : Position → Prop} {items : List Placed}

/-- The error about a limit stands at one of the characters. -/
theorem overrun_at (h : ∀ item ∈ items, P item.position) (limit : Nat) :
    ∀ e ∈ overrun limit items, P e.position := by
  intro e he
  unfold overrun at he
  split at he
  · rename_i item hitem
    rw [List.mem_singleton.mp he]
    exact h item (List.mem_of_getElem? hitem)
  · cases he

/-- The error about a missing closer stands where the reader has come to. -/
theorem unclosed_at {closed : Bool} (h : P c.position) :
    ∀ e ∈ unclosed closed c, P e.position := by
  intro e he
  unfold unclosed at he
  split at he
  · cases he
  · rw [List.mem_singleton.mp he]
    exact h

/-- The errors about digits stand at digits. -/
theorem DigitRun.errors_at (h : ∀ item ∈ items, P item.position)
    (radix limit used : Nat) :
    ∀ e ∈ (DigitRun.read radix limit used items).errors, P e.position := by
  intro e he
  rcases List.mem_append.mp he with he | he
  · split at he
    · rename_i item hitem
      rw [List.mem_singleton.mp he]
      exact h item (List.mem_of_mem_take (List.mem_of_getElem? hitem))
    · cases he
  · split at he
    · rename_i item hitem
      split at he
      · rw [List.mem_singleton.mp he]
        exact h item (List.mem_of_getElem? hitem)
      · cases he
    · cases he

/-- The first place of some characters is one of theirs or the one behind them. -/
theorem placeOf_at {finish : Position} (hfinish : P finish)
    (h : ∀ item ∈ items, P item.position) :
    P (placeOf finish items) := by
  cases items with
  | nil => exact hfinish
  | cons item items => exact h item List.mem_cons_self

/-- What a literal stands for has the places of its characters, or of its end. -/
theorem decode_at {finish : Position} (hfinish : P finish)
    (h : ∀ item ∈ items, P item.position) :
    (∀ item ∈ (decode finish items).1, P item.position) ∧
      ∀ w ∈ (decode finish items).2, P w.position := by
  fun_induction decode finish items with
  | case1 => exact ⟨by simp, by simp⟩
  | case2 p hp => exact ⟨by simp, by simp⟩
  | case3 p hp => exact ⟨h, by simp⟩
  | case4 p e rest hp decoded warnings hdecode ih =>
      obtain ⟨hfirst, hrest⟩ := List.forall_mem_cons.mp h
      rw [hdecode] at ih
      obtain ⟨hdecoded, hwarnings⟩ := ih hrest
      exact ⟨List.forall_mem_cons.mpr ⟨hfirst, hdecoded⟩, hwarnings⟩
  | case5 p e rest hp he digits behind code decoded warnings hdecode ih =>
      have hrest := (List.forall_mem_cons.mp (List.forall_mem_cons.mp h).2).2
      have hbehind : ∀ item ∈ behind, P item.position :=
        fun item hitem => hrest item (List.mem_of_mem_drop hitem)
      rw [hdecode] at ih
      obtain ⟨hdecoded, hwarnings⟩ := ih hbehind
      refine ⟨List.forall_mem_cons.mpr ⟨placeOf_at hfinish hbehind, hdecoded⟩, ?_⟩
      dsimp only
      split
      · exact List.forall_mem_cons.mpr ⟨placeOf_at hfinish hrest, hwarnings⟩
      · exact hwarnings
  | case6 p e rest hp he decoded warnings hdecode _ _ ih =>
      have hrest := (List.forall_mem_cons.mp (List.forall_mem_cons.mp h).2).2
      rw [hdecode] at ih
      obtain ⟨hdecoded, hwarnings⟩ := ih hrest
      exact ⟨List.forall_mem_cons.mpr ⟨placeOf_at hfinish hrest, hdecoded⟩,
        hwarnings⟩
  | case7 p e rest hp he decoded warnings hdecode _ ih =>
      obtain ⟨hescape, hrest⟩ :=
        List.forall_mem_cons.mp (List.forall_mem_cons.mp h).2
      rw [hdecode] at ih
      obtain ⟨hdecoded, hwarnings⟩ := ih hrest
      exact ⟨List.forall_mem_cons.mpr ⟨placeOf_at hfinish hrest, hdecoded⟩,
        List.forall_mem_cons.mpr ⟨hescape, hwarnings⟩⟩

end Reports

/-- A reader that reports only places on its way. -/
structure Reading.Local (c : Cursor) (r : Reading) : Prop where
  errors : ∀ e ∈ r.errors, c.Passes r.behind e.position
  warnings : ∀ w ∈ r.warnings, c.Passes r.behind w.position

/-- A reading with all notes on the last part of a way has them on the way. -/
theorem Reading.Local.before {r : Reading} {d : Cursor} (h : r.Local d)
    (hmoves : c.Moves d) : r.Local c :=
  ⟨fun e he => (h.errors e he).before hmoves,
    fun w hw => (h.warnings w hw).before hmoves⟩

/-- The notes on a number with a mark stand on the way past it. -/
theorem readRadixNumber_local (limit : Nat) (c : Cursor) :
    (readRadixNumber limit c).Local c := by
  refine ⟨fun e he => ?_, fun _ hw => nomatch hw⟩
  have hmark := moves_advance c
  have hmarked := hmark.trans (moves_advance c.advance)
  rcases List.mem_append.mp he with he | he
  · rcases List.mem_append.mp he with he | he
    · split at he
      · cases he
      · rw [List.mem_singleton.mp he]
        exact ((moves_advance c.advance).trans (moves_run _ _)).passes_start.before
          hmark
    · exact DigitRun.errors_at
        (fun item hitem => (mem_run_passes hitem).before hmarked) _ _ _ e he
  · split at he
    · rw [List.mem_singleton.mp he]
      exact (readRadixNumber_moves limit c).passes_stop
    · cases he

/-- The errors of an exponent stand on the way past it. -/
theorem readExponent_passes (c : Cursor) :
    ∀ e ∈ (readExponent c).2.1, c.Passes (readExponent c).2.2 e.position := by
  intro e he
  have hmoves := readExponent_moves c
  unfold readExponent at he hmoves ⊢
  dsimp only at he hmoves ⊢
  generalize
    (if (c.current? == some '-' || c.current? == some '+') = true then c.advance
      else c) =
    unsigned at he hmoves ⊢
  by_cases hempty : (unsigned.run (Character.isDigitOf 10)).1.isEmpty = true
  · rw [if_pos hempty] at he hmoves ⊢
    rw [List.mem_singleton.mp he]
    exact hmoves.passes_stop
  · rw [if_neg hempty] at he
    cases he

/-- The digits behind a point stand on the way past them. -/
theorem mem_fractionRun_passes {item : Placed} (h : item ∈ (fractionRun c).1) :
    c.Passes (fractionRun c).2 item.position := by
  unfold fractionRun at h ⊢
  split at h
  · rename_i hpoint
    rw [if_pos hpoint]
    exact (mem_run_passes h).before (moves_advance c)
  · cases h

/-- The errors of an exponent, if there is one, stand on the way past it. -/
theorem exponentPart?_passes
    {part : Option Int × List (Located LexicalError) × Cursor}
    (h : exponentPart? c = some part) :
    ∀ e ∈ part.2.1, c.Passes part.2.2 e.position := by
  intro e he
  unfold exponentPart? at h
  split at h
  · obtain rfl := Option.some.inj h
    exact (readExponent_passes c.advance e he).before (moves_advance c)
  · cases h

/-- The notes on a decimal number stand on the way past it. -/
theorem readDecimalNumber_local (limit : Nat) (c : Cursor) :
    (readDecimalNumber limit c).Local c := by
  have hintegral := moves_run (Character.isDigitOf 10) c
  have hfraction := fractionRun_moves (c.run (Character.isDigitOf 10)).2
  -- The digits before and after the point, wherever the number ends behind them.
  have hdigits : ∀ d, (fractionRun (c.run (Character.isDigitOf 10)).2).2.Moves d →
      ∀ e ∈ (DigitRun.read 10 limit 0 (c.run (Character.isDigitOf 10)).1).errors ++
        (DigitRun.read 10 limit (c.run (Character.isDigitOf 10)).1.length
          (fractionRun (c.run (Character.isDigitOf 10)).2).1).errors,
            c.Passes d e.position := by
    intro d hd e he
    rcases List.mem_append.mp he with he | he
    · refine DigitRun.errors_at (P := c.Passes d) (fun item hitem => ?_) _ _ _ e he
      exact (mem_run_passes hitem).behind (hfraction.trans hd)
    · refine DigitRun.errors_at (P := c.Passes d) (fun item hitem => ?_) _ _ _ e he
      exact (mem_fractionRun_passes hitem).widen hintegral hd
  unfold readDecimalNumber
  dsimp only
  split
  · rename_i exponent errors behind hpart
    refine ⟨fun e he => ?_, fun _ hw => nomatch hw⟩
    rcases List.mem_append.mp he with he | he
    · exact hdigits behind (exponentPart?_moves hpart) e he
    · exact (exponentPart?_passes hpart e he).before (hintegral.trans hfraction)
  · exact ⟨hdigits _ (.refl _), fun _ hw => nomatch hw⟩

/-- The notes on a number stand on the way past it. -/
theorem readNumber_local (limit : Nat) (c : Cursor) :
    (readNumber limit c).Local c := by
  unfold readNumber
  split
  · exact readRadixNumber_local limit c
  · exact readDecimalNumber_local limit c

theorem readWord_local (limit : Nat) (c : Cursor) : (readWord limit c).Local c :=
  ⟨overrun_at (fun _ hitem => mem_run_passes hitem) limit, fun _ hw => nomatch hw⟩

/-- The notes on a string stand on the way past it. -/
theorem readString_local (limit : Nat) (c : Cursor) :
    (readString limit c).Local c := by
  obtain ⟨hfinish, hbody⟩ := bodyRun_passes false c.advance.position c.advance.rest
  obtain ⟨hitems, hwarnings⟩ := decode_at hfinish hbody
  have hstop := (bodyRun_moves false c.advance.position c.advance.rest).passes_stop
  refine Reading.Local.before ⟨fun e he => ?_, hwarnings⟩ (moves_advance c)
  rcases List.mem_append.mp he with he | he
  · exact overrun_at hitems limit e he
  · exact unclosed_at hstop e he

theorem readUnknown_local (char : Char) (c : Cursor) :
    (readUnknown c.position char c).Local c := by
  refine ⟨fun e he => ?_, fun _ hw => nomatch hw⟩
  rw [List.mem_singleton.mp he]
  exact (moves_advance c).passes_start

theorem readLineComment_local (limit : Nat) (c : Cursor) :
    (readLineComment limit c).Local c :=
  ⟨overrun_at (fun _ hitem => mem_run_passes hitem) limit, fun _ hw => nomatch hw⟩

theorem readBlockComment_local (limit : Nat) (c : Cursor) :
    (readBlockComment limit c).Local c := by
  refine ⟨fun e he => ?_, fun _ hw => nomatch hw⟩
  rcases List.mem_append.mp he with he | he
  · exact overrun_at (fun _ hitem => mem_commentRun_passes hitem) limit e he
  · exact unclosed_at (commentRun_moves c.position c.rest).passes_stop e he

/-- The notes on a symbol or a comment stand on the way past it. -/
theorem readSymbol_local (limit : Nat) (c : Cursor) :
    (readSymbol limit c).Local c := by
  have hlive := liveRun_moves [] c.position c.rest
  unfold readSymbol
  dsimp only
  split
  · exact (readLineComment_local limit _).before hlive
  · split
    · exact (readBlockComment_local limit _).before hlive
    · split
      · exact ⟨by simp, by simp⟩
      · refine ⟨fun e he => ?_, fun _ hw => nomatch hw⟩
        rw [List.mem_singleton.mp he]
        exact hlive.passes_start

/-- Every reader reports only places on its way. -/
theorem readFrom_local (limit : Nat) (first : Char) (c : Cursor) :
    (readFrom limit first c).Local c := by
  unfold readFrom
  split
  · exact readSymbol_local limit c
  · split
    · exact readWord_local limit c
    · split
      · exact readNumber_local limit c
      · split
        · exact readString_local limit c
        · exact readUnknown_local first c

/-! ## Raw characters -/

namespace Glyph

/-- Only the empty text has no logical characters. -/
theorem eq_nil_of_ofChars {chars : List Char}
    (h : ofChars chars = []) : chars = [] := by
  fun_cases ofChars chars with
  | case1 => rfl
  | case2 => cases h
  | case3 => cases h
  | case4 => simp [ofChars] at h

/-- A character is as blank as the line break it is taken for. -/
theorem isBlank_logical (c : Char) :
    Character.isBlank (if isLineBreak c then '\n' else c) =
      Character.isBlank c := by
  split
  · rename_i hbreak
    simp only [isLineBreak, Bool.or_eq_true, beq_iff_eq] at hbreak
    rcases hbreak with (rfl | rfl) | rfl <;> decide
  · rfl

/-- The raw characters that the first logical one stands for, which are blank if it
is. -/
theorem ofChars_eq_cons {chars : List Char} {g : Glyph} {rest : List Glyph}
    (h : ofChars chars = g :: rest) :
    ∃ raw more, chars = raw ++ more ∧ raw.length = g.width ∧ rest = ofChars more ∧
      ∀ c ∈ raw, Character.isBlank c = Character.isBlank g.char := by
  fun_cases ofChars chars with
  | case1 => cases h
  | case2 more =>
      cases h
      refine ⟨['\r', '\n'], more, rfl, rfl, rfl, ?_⟩
      exact List.forall_mem_cons.mpr
        ⟨by decide, List.forall_mem_singleton.mpr (by decide)⟩
  | case3 more =>
      cases h
      refine ⟨['\n', '\r'], more, rfl, rfl, rfl, ?_⟩
      exact List.forall_mem_cons.mpr
        ⟨by decide, List.forall_mem_singleton.mpr (by decide)⟩
  | case4 c more hcr hlf =>
      rw [ofChars.eq_4 _ _ hcr hlf] at h
      cases h
      refine ⟨[c], more, rfl, rfl, rfl, fun d hd => ?_⟩
      rw [List.mem_singleton.mp hd]
      exact (isBlank_logical c).symm

end Glyph

namespace Cursor

variable {chars : List Char} {d : Cursor}

/-- A cursor between two raw characters of a text, with all of the text before it
that follows. -/
structure In (chars : List Char) (c : Cursor) : Prop where
  offset_le : c.position.offset ≤ chars.length
  rest_eq : c.rest = Glyph.ofChars (chars.drop c.position.offset)

theorem in_ofText (source : String) : (ofText source).In source.toList :=
  ⟨Nat.zero_le _, rfl⟩

/-- The raw characters under a cursor. -/
theorem In.step {here : Position} {g : Glyph} {rest : List Glyph}
    (h : In chars ⟨here, g :: rest⟩) :
    In chars ⟨here.after g, rest⟩ ∧ ∀ i, here.offset ≤ i →
      i < (here.after g).offset →
      ∃ r, chars[i]? = some r ∧ Character.isBlank r = Character.isBlank g.char := by
  obtain ⟨raw, more, hsplit, hwidth, hrest, hblank⟩ :=
    Glyph.ofChars_eq_cons h.rest_eq.symm
  have hle : here.offset ≤ chars.length := h.offset_le
  dsimp only at hsplit
  have hlength := congrArg List.length hsplit
  rw [List.length_drop, List.length_append] at hlength
  rw [offset_after]
  refine ⟨⟨?_, ?_⟩, fun i hi hlt => ?_⟩
  · dsimp only
    rw [offset_after]
    omega
  · dsimp only
    rw [offset_after, ← List.drop_drop, hsplit, ← hwidth, List.drop_left, hrest]
  · obtain ⟨k, rfl⟩ : ∃ k, i = here.offset + k := ⟨i - here.offset, by omega⟩
    have hk : k < raw.length := by omega
    refine ⟨raw[k], ?_, hblank _ (List.getElem_mem hk)⟩
    rw [← List.getElem?_drop, hsplit, List.getElem?_append_left hk,
      List.getElem?_eq_getElem hk]

/-- A cursor that moves stays in its text. -/
theorem In.moves (h : c.In chars) (hmoves : c.Moves d) : d.In chars := by
  induction hmoves with
  | refl => exact h
  | step _ ih => exact ih h.step.1

/-- A cursor at the end of the text has all of it before it. -/
theorem In.offset_eq (h : c.In chars) (hrest : c.rest = []) :
    c.position.offset = chars.length := by
  have hle := h.offset_le
  have hnil := Glyph.eq_nil_of_ofChars (h.rest_eq.symm.trans hrest)
  have hdrop := List.drop_eq_nil_iff.mp hnil
  omega

/-- Nothing but blanks is skipped. -/
theorem In.skip_blank (h : c.In chars) {i : Nat} (hi : c.position.offset ≤ i)
    (hlt : i < (c.skip Character.isBlank).position.offset) :
    ∃ r, chars[i]? = some r ∧ Character.isBlank r = true := by
  obtain ⟨here, rest⟩ := c
  unfold skip at hlt
  induction rest generalizing here with
  | nil => exact absurd hlt (Nat.not_lt.mpr hi)
  | cons g rest ih =>
      obtain ⟨hbehind, hraw⟩ := h.step
      unfold skip.go at hlt
      split at hlt
      · rename_i hblank
        by_cases hunder : i < (here.after g).offset
        · obtain ⟨r, hr, heq⟩ := hraw i hi hunder
          exact ⟨r, hr, heq.trans hblank⟩
        · exact ih _ hbehind (Nat.not_lt.mp hunder) hlt
      · exact absurd hlt (Nat.not_lt.mpr hi)

/-- What is left behind skipped blanks begins with no blank. -/
theorem not_blank_of_skip {q : Char → Bool} {first : Char}
    (h : (c.skip q).current? = some first) :
    q first = false := by
  obtain ⟨here, rest⟩ := c
  unfold skip at h
  induction rest generalizing here with
  | nil => cases h
  | cons g rest ih =>
      unfold skip.go at h
      split at h
      · exact ih _ h
      · rename_i hstop
        obtain rfl : g.char = first := Option.some.inj h
        exact Bool.eq_false_iff.mpr hstop

/-- The raw character under a cursor is as blank as the logical one. -/
theorem In.current (h : c.In chars) (hsolid : c.Solid) {first : Char}
    (hfirst : c.current? = some first) :
    ∃ r, chars[c.position.offset]? = some r ∧
      Character.isBlank r = Character.isBlank first := by
  obtain ⟨here, _ | ⟨g, rest⟩⟩ := c
  · cases hfirst
  · obtain rfl : g.char = first := Option.some.inj hfirst
    have hwidth := hsolid g List.mem_cons_self
    refine h.step.2 here.offset (Nat.le_refl _) ?_
    rw [offset_after]
    omega

end Cursor

/-! ## The end of the text -/

/-- No reader takes what it reads for the end of the text. -/
theorem readFrom_ne_endOfText (limit : Nat) (first : Char) (c : Cursor) :
    (readFrom limit first c).lexeme ≠ .endOfText := by
  intro h
  unfold readFrom at h
  split at h
  · unfold readSymbol readLineComment readBlockComment at h
    dsimp only at h
    split at h
    · cases h
    · split at h
      · cases h
      · split at h <;> cases h
  · split at h
    · unfold readWord at h
      dsimp only at h
      split at h <;> cases h
    · split at h
      · unfold readNumber readRadixNumber readDecimalNumber at h
        dsimp only at h
        split at h
        · cases h
        · split at h
          · cases h
          · dsimp only at h
            split at h <;> cases h
      · split at h <;> cases h

/-- A span that a place lies in, its two ends included. -/
def Span.Contains (s : Span) (p : Position) : Prop :=
  s.start.order p ≠ .gt ∧ p.order s.stop ≠ .gt

instance (s : Span) (p : Position) : Decidable (s.Contains p) :=
  inferInstanceAs (Decidable (_ ∧ _))

/-- A span that the raw character at an offset lies in. -/
def Span.Holds (s : Span) (i : Nat) : Prop := s.start.offset ≤ i ∧ i < s.stop.offset

instance (s : Span) (i : Nat) : Decidable (s.Holds i) :=
  inferInstanceAs (Decidable (_ ∧ _))

/-- A place that is passed is contained in the span of the way. -/
theorem Cursor.Passes.contains {d : Cursor} {p : Position} (h : c.Passes d p)
    (hc : c.Solid) :
    Span.Contains ⟨c.position, d.position⟩ p := by
  obtain ⟨e, hbefore, hbehind, rfl⟩ := h
  exact ⟨hbefore.order_ne_gt hc, hbehind.order_ne_gt (hbefore.solid hc)⟩

namespace Lexed

/-- Where no token is left, only blanks were. -/
theorem skip_of_endOfText {limit : Nat}
    (h : (next limit c).1.token.lexeme = .endOfText) :
    c.skip Character.isBlank = ⟨c.position.behind c.rest, []⟩ := by
  have hbehind := (moves_skip Character.isBlank c).behind_eq
  unfold next at h
  dsimp only at h
  rcases hskip : c.skip Character.isBlank with ⟨here, _ | ⟨g, rest⟩⟩
  · rw [hskip] at hbehind
    rw [← hbehind]
    rfl
  · rw [hskip] at h
    exact absurd h (readFrom_ne_endOfText limit g.char _)

/-- The end of the text stands at the end of the text. -/
theorem next_of_endOfText {limit : Nat}
    (h : (next limit c).1.token.lexeme = .endOfText) :
    next limit c = (endAt (c.position.behind c.rest),
      ⟨c.position.behind c.rest, []⟩) := by
  unfold next
  rw [skip_of_endOfText h]
  rfl

/-- A token that is not the end of the text is read behind the blanks that are
skipped. -/
theorem next_of_ne {limit : Nat} (h : (next limit c).1.token.lexeme ≠ .endOfText) :
    ∃ first, (c.skip Character.isBlank).current? = some first ∧
      (next limit c).1.token.span.start = (c.skip Character.isBlank).position := by
  unfold next at h ⊢
  dsimp only at h ⊢
  cases hfirst : (c.skip Character.isBlank).current? with
  | none =>
      rw [hfirst] at h
      exact absurd rfl h
  | some first => exact ⟨first, rfl, rfl⟩

/-- The end of the text is the last token, and no other. -/
theorem all_eq_concat (limit : Nat) (c : Cursor) :
    ∃ before, all limit c = before ++ [endAt (c.position.behind c.rest)] ∧
      ∀ l ∈ before, l.token.kind ≠ .endOfText := by
  fun_induction all limit c with
  | case1 c step hend =>
      refine ⟨[], ?_, by simp⟩
      rw [show step = _ from next_of_endOfText hend]
      rfl
  | case2 c step hend ih =>
      obtain ⟨before, hall, hkinds⟩ := ih
      refine ⟨step.1 :: before, ?_,
        List.forall_mem_cons.mpr ⟨kind_ne_endOfText hend, hkinds⟩⟩
      rw [hall, (next_moves limit c).behind_eq, List.cons_append]

/-- What a lexer answers when it is asked for a token for the time `n`, counted from
zero. -/
def answer (limit : Nat) : Nat → Cursor → Lexed
  | 0, c => (next limit c).1
  | n + 1, c => answer limit n (next limit c).2

/-- A lexer answers with the tokens, and then with the end of the text again and
again. -/
theorem answer_eq (limit n : Nat) (c : Cursor) :
    answer limit n c = (all limit c)[n]?.getD
      (endAt (c.position.behind c.rest)) := by
  induction n generalizing c with
  | zero =>
      by_cases hend : (next limit c).1.token.lexeme = .endOfText
      · rw [all_of_endOfText hend]
        rfl
      · rw [all_of_ne hend]
        rfl
  | succ n ih =>
      rw [answer, ih, (next_moves limit c).behind_eq]
      by_cases hend : (next limit c).1.token.lexeme = .endOfText
      · rw [all_of_endOfText hend, next_of_endOfText hend, all_nil]
        cases n <;> rfl
      · rw [all_of_ne hend, List.getElem?_cons_succ]

/-! ## Whole texts -/

/-- Every token is the next one for some cursor on the way. -/
theorem exists_next_of_mem_all {limit : Nat} {l : Lexed} (hl : l ∈ all limit c) :
    ∃ d, c.Moves d ∧ l = (next limit d).1 := by
  fun_induction all limit c with
  | case1 c step _ => exact ⟨c, .refl c, List.mem_singleton.mp hl⟩
  | case2 c step _ ih =>
      rcases List.mem_cons.mp hl with rfl | hl
      · exact ⟨c, .refl c, rfl⟩
      · obtain ⟨d, hmoves, heq⟩ := ih hl
        exact ⟨d, (next_moves limit c).trans hmoves, heq⟩

/-- What is noticed about a token is noticed inside of it. -/
structure NotedInside (l : Lexed) : Prop where
  error : ∀ e ∈ l.notes.error, l.token.span.Contains e.position
  warnings : ∀ w ∈ l.notes.warnings, l.token.span.Contains w.position

/-- Everything noted about a token is noted inside of its span. -/
theorem next_notedInside (limit : Nat) (hc : c.Solid) :
    (next limit c).1.NotedInside := by
  have hsolid := (moves_skip Character.isBlank c).solid hc
  unfold next
  dsimp only
  split
  · exact ⟨by simp, by simp⟩
  · rename_i first _
    have hlocal := readFrom_local limit first (c.skip Character.isBlank)
    refine ⟨fun e he => ?_, fun w hw => (hlocal.warnings w hw).contains hsolid⟩
    exact (hlocal.errors e (List.mem_of_head? he)).contains hsolid

/-- Where a token stands in the raw text: it begins with a character that is not
blank. -/
def BeginsIn (chars : List Char) (l : Lexed) : Prop :=
  ∃ r, chars[l.token.span.start.offset]? = some r ∧ Character.isBlank r = false

/-- A token begins with a character of the text that is no blank. -/
theorem next_beginsIn {chars : List Char} {limit : Nat} (h : c.In chars)
    (hc : c.Solid) (hend : (next limit c).1.token.lexeme ≠ .endOfText) :
    (next limit c).1.BeginsIn chars := by
  have hskip := moves_skip Character.isBlank c
  obtain ⟨first, hfirst, hstart⟩ := next_of_ne hend
  obtain ⟨r, hr, hblank⟩ := (h.moves hskip).current (hskip.solid hc) hfirst
  rw [BeginsIn, hstart]
  exact ⟨r, hr, hblank.trans (not_blank_of_skip hfirst)⟩

/-- Every raw character behind a cursor is blank, or lies in a token. -/
theorem all_holds {chars : List Char} (limit : Nat) (h : c.In chars) {i : Nat}
    {r : Char} (hi : c.position.offset ≤ i) (hr : chars[i]? = some r) :
    Character.isBlank r = true ∨ ∃ l ∈ all limit c, l.token.span.Holds i := by
  have hlt := (List.getElem?_eq_some_iff.mp hr).1
  -- A character that is skipped is blank.
  have hskipped : ∀ {c : Cursor}, c.In chars → c.position.offset ≤ i →
      i < (c.skip Character.isBlank).position.offset →
          Character.isBlank r = true := by
    intro c h hi hskip
    obtain ⟨r', hr', hblank⟩ := h.skip_blank hi hskip
    obtain rfl : r' = r := Option.some.inj (hr'.symm.trans hr)
    exact hblank
  fun_induction all limit c with
  | case1 c step hend =>
      have hlength :=
        (h.moves (moves_skip Character.isBlank
          c)).offset_eq (by rw [skip_of_endOfText hend])
      exact .inl (hskipped h hi (by omega))
  | case2 c step hend ih =>
      obtain ⟨first, _, hstart⟩ := next_of_ne hend
      by_cases hskip : i < (c.skip Character.isBlank).position.offset
      · exact .inl (hskipped h hi hskip)
      · by_cases hstop : i < step.2.position.offset
        · refine .inr ⟨step.1, List.mem_cons_self, ?_, ?_⟩
          · rw [hstart]
            exact Nat.not_lt.mp hskip
          · rw [next_stop]
            exact hstop
        · refine (ih (h.moves (next_moves limit c)) (Nat.not_lt.mp hstop)).imp id ?_
          rintro ⟨l, hl, hholds⟩
          exact ⟨l, List.mem_cons_of_mem _ hl, hholds⟩

/-- Tokens that make up a text: nothing is left out but blanks, nothing is read
twice, and whatever is noticed about a token is noticed inside of it. -/
structure Covers (source : String) (ls : List Lexed) : Prop where
  /-- The end of the text is the last token and no other, behind all characters. -/
  ends : ∃ before, ls = before ++ [endAt (Position.extent source)] ∧
    (∀ l ∈ before, l.token.kind ≠ .endOfText) ∧
      (Position.extent source).offset = source.toList.length
  wide : ∀ l ∈ ls, l.token.kind ≠ .endOfText →
    l.token.span.start.offset < l.token.span.stop.offset
  ordered : Ordered ls
  blank_of_not_holds : ∀ i r, source.toList[i]? = some r →
    (∀ l ∈ ls, ¬ l.token.span.Holds i) →
    Character.isBlank r = true
  beginsIn : ∀ l ∈ ls, l.token.kind ≠ .endOfText → l.BeginsIn source.toList
  notedInside : ∀ l ∈ ls, l.NotedInside

/-- The tokens of every text cover it, under every limit on their content; and a
lexer that has come to the end of a text stays there, however often it is asked for
another token. -/
theorem ofText_covers (limit : Nat) (source : String) :
    Covers source (Lexed.ofText limit source) ∧
      ∀ n, answer limit n (Cursor.ofText source) =
        (Lexed.ofText limit source)[n]?.getD (endAt (Position.extent source)) := by
  have hin : (Cursor.ofText source).In source.toList := in_ofText source
  have hsolid : (Cursor.ofText source).Solid := Glyph.width_pos_of_mem source.toList
  obtain ⟨hstands, hordered⟩ := ofText_ordered limit source
  refine ⟨⟨?_, fun l hl hkind => (hstands l hl).width_pos (.inl hkind),
    hordered, ?_, ?_, ?_⟩,
    fun n => answer_eq limit n _⟩
  · obtain ⟨before, hall, hkinds⟩ := all_eq_concat limit (Cursor.ofText source)
    exact ⟨before, hall, hkinds, (hin.moves (moves_behind _ _)).offset_eq rfl⟩
  · intro i r hr houtside
    rcases all_holds limit hin (Nat.zero_le i) hr with hblank | ⟨l, hl, hholds⟩
    · exact hblank
    · exact absurd hholds (houtside l hl)
  · intro l hl hkind
    obtain ⟨d, hmoves, rfl⟩ := exists_next_of_mem_all hl
    refine next_beginsIn (hin.moves hmoves) (hmoves.solid hsolid) fun hlexeme =>
      hkind ?_
    rw [Token.kind, hlexeme]
    rfl
  · intro l hl
    obtain ⟨d, hmoves, rfl⟩ := exists_next_of_mem_all hl
    exact next_notedInside limit (hmoves.solid hsolid)

/-- A word, a line break of two characters, and a literal that is never closed, with
an escape sequence that nobody knows.  Its tokens leave out the line break; what is
noticed about the literal is noticed at the letter behind the backslash, and at the
end of the text. -/
theorem unclosedLiteral_covered :
    let source := "a\r\n\"\\q"
    let ls := Lexed.ofText 4096 source
    ls.map (fun l => (l.token.span.start.offset, l.token.span.stop.offset)) =
      [(0, 1), (3, 6), (6, 6)] ∧
      (∃ l ∈ ls, l.notes.error.map (·.position.offset) = some 6 ∧
        l.notes.warnings.map (·.position.offset) = [5] ∧ l.NotedInside) ∧
      Character.isBlank '\r' = true ∧
      answer 4096 7 (Cursor.ofText source) = endAt ⟨6, 2, 4⟩ := by
  intro source ls
  obtain ⟨hcovers, hanswer⟩ := ofText_covers 4096 source
  have hspans :
    ls.map (fun l => (l.token.span.start.offset, l.token.span.stop.offset)) =
      [(0, 1), (3, 6), (6, 6)] := by decide +kernel
  refine ⟨hspans, ?_, ?_, ?_⟩
  · have hnoted : ∃ l ∈ ls, l.notes.error.map (·.position.offset) = some 6 ∧
        l.notes.warnings.map (·.position.offset) = [5] := by decide +kernel
    obtain ⟨l, hl, herror, hwarnings⟩ := hnoted
    exact ⟨l, hl, herror, hwarnings, hcovers.notedInside l hl⟩
  · exact hcovers.blank_of_not_holds 1 '\r' (by decide +kernel) (by decide +kernel)
  · rw [hanswer 7]
    decide +kernel

end Lexed

end ScriptLang
