import ScriptLang.Proofs.Parse.Steps
import ScriptLang.Proofs.Token.Locality

/-!
# Texts one behind the other

When a text ends in a semicolon that ends its last statement, another text can be
put behind it, and both are parsed as if each stood alone.  Nothing of the first
text depends on what is put behind it: no token, since a semicolon is read without a
look at what follows, and no statement, since a parser that has taken the semicolon
looks no further.  The second text is parsed as usual, at other places.

The two halves of the proof are two pairings.  In `Pairing.extended` the second
parse has more tokens behind, and is compared for as long as the first one does not
look at the end of its text.  In `Pairing.shifted` the second parse has a text
before it, and is compared to the end.
-/

namespace ScriptLang

/-! ## Tokens -/

namespace Entry

variable (φ : Position → Position)

/-- What stands behind a token that is no comment is gathered on its own. -/
theorem gather_append (pending : List Notes) (before : List Lexed) {l : Lexed}
    (hl : l.token.kind.isComment = false) (rest : List Lexed) :
    gather pending (before ++ l :: rest) = gather pending (before ++ [l]) ++
      gather [] rest := by
  induction before generalizing pending with
  | nil => simp [gather, hl]
  | cons k before ih =>
      simp only [List.cons_append, gather]
      split
      · exact ih _
      · rw [ih, List.cons_append]

/-- Tokens that are moved are gathered with their notes moved. -/
theorem gather_moved (pending : List Notes) (ls : List Lexed) :
    gather (pending.map (Notes.moved φ)) (ls.map (Lexed.moved φ)) =
      (gather pending ls).map (Entry.moved φ) := by
  induction ls generalizing pending with
  | nil => rfl
  | cons l ls ih =>
      have hkind : (l.moved φ).token.kind = l.token.kind := rfl
      have hnotes : pending.map (Notes.moved φ) ++ [(l.moved φ).notes] =
          (pending ++ [l.notes]).map (Notes.moved φ) := by
        rw [List.map_append]
        rfl
      simp only [List.map_cons, gather, hkind, hnotes]
      split
      · exact ih _
      · rw [List.map_cons, ← ih []]
        rfl

/-- The end of the text, at a place. -/
def endAt (p : Position) : Entry := ⟨⟨.endOfText, Span.point p⟩, [⟨none, []⟩]⟩

/-- A token without comments is one of the tokens. -/
theorem mem_gather {ls : List Lexed} {e : Entry} (he : e ∈ gather [] ls) :
    ∃ l ∈ ls, l.token = e.token := by
  obtain ⟨ks, rest, rfl, _, htokens, _⟩ :=
    gather_eq_append (h := (List.append_nil (gather [] ls)).symm)
  obtain ⟨l, hl, htoken⟩ := htokens e he
  exact ⟨l, List.mem_append_left _ hl, htoken⟩

/-- A token that is no comment is not passed over. -/
theorem mem_gather_of_mem {ls : List Lexed} {l : Lexed} (hl : l ∈ ls)
    (hcomment : l.token.kind.isComment = false) (pending : List Notes) :
    ∃ e ∈ gather pending ls, e.token = l.token := by
  induction ls generalizing pending with
  | nil => cases hl
  | cons k ls ih =>
      rcases List.mem_cons.mp hl with rfl | hl
      · exact ⟨⟨l.token, pending ++ [l.notes]⟩, by simp [gather, hcomment], rfl⟩
      · unfold gather
        split
        · exact ih hl _
        · obtain ⟨e, he, htoken⟩ := ih hl []
          exact ⟨e, List.mem_cons_of_mem _ he, htoken⟩

/-- A text has at least one token. -/
theorem ofText_ne_nil (limit : Nat) (source : String) :
    ofText limit source ≠ [] := by
  obtain ⟨l, hl, hend⟩ := Lexed.exists_endOfText limit (Cursor.ofText source)
  obtain ⟨e, he, _⟩ := mem_gather_of_mem hl (by rw [Token.kind, hend]; rfl) []
  exact List.ne_nil_of_mem he

/-- A text that stands behind another one has the tokens of its own, at other
places. -/
theorem gather_behind (limit : Nat) (q : String) {base : Position}
    (hbase : base.Real) :
    gather [] (Lexed.all limit ⟨base, Glyph.ofChars q.toList⟩) =
      (ofText limit q).map (Entry.moved base.shift) := by
  have hmoved :=
    Lexed.all_moved (carries_shift base) limit (c := Cursor.ofText q) Nat.one_pos
  rw [Cursor.ofText, Position.shift_start hbase] at hmoved
  rw [hmoved]
  exact gather_moved base.shift [] _

/-- The tokens of two texts, the first of which ends in a semicolon that is a
token. -/
theorem ofText_append (limit : Nat) {p : String} (q : String)
    (hlast : p.toList.getLast? = some ';') {e : Entry} (he : e ∈ ofText limit p)
    (hsemicolon : e.token.lexeme = .symbol .semicolon)
    (hstop : e.token.span.stop = Position.extent p) :
    ∃ before, (∀ e ∈ before, e.token.kind ≠ .endOfText) ∧
      ofText limit p = before ++ [endAt (Position.extent p)] ∧
      ofText limit (p ++ q) = before ++ (ofText limit q).map
        (Entry.moved (Position.extent p).shift) := by
  obtain ⟨l, hl, htoken⟩ := mem_gather he
  rw [← htoken] at hsemicolon hstop
  have hcomment : l.token.kind.isComment = false := by
    rw [Token.kind, hsemicolon]
    rfl
  have hopen : (Cursor.ofText p).Open (Glyph.ofChars q.toList) := by
    refine ⟨Nat.one_pos, .inr ?_⟩
    rw [Cursor.ofText, Glyph.getLast?_ofChars, hlast]
    rfl
  have hglyphs : Glyph.ofChars (p ++ q).toList = Glyph.ofChars p.toList ++
      Glyph.ofChars q.toList := by
    rw [String.toList_append]
    apply Glyph.ofChars_append
    intro c hc
    obtain rfl : ';' = c := Option.some.inj (hlast.symm.trans hc)
    decide
  have hsolid : (Cursor.ofText p).Solid := Glyph.width_pos_of_mem p.toList
  obtain ⟨before, hbefore, hfirst, hboth⟩ :=
    Lexed.all_behind limit hopen hsolid hl hsemicolon hstop
  refine ⟨gather [] (before ++ [l]), fun f hf => ?_, ?_, ?_⟩
  · obtain ⟨k, hk, hkind⟩ := mem_gather hf
    rw [← hkind]
    rcases List.mem_append.mp hk with hk | hk
    · exact hbefore k hk
    · rw [List.mem_singleton.mp hk, Token.kind, hsemicolon]
      decide
  · rw [ofText, Lexed.ofText, hfirst, gather_append [] before hcomment]
    rfl
  · rw [ofText, Lexed.ofText, Cursor.ofText, hglyphs]
    rw [Cursor.ofText] at hboth
    rw [hboth, gather_append [] before hcomment]
    congr 1
    exact gather_behind limit q (Position.real_extent p)

end Entry

/-! ## A text before -/

namespace ParseState

/-- The state of a parse that goes on behind some tokens and reports. -/
def shifted (base : Position) (before : List Entry)
    (errors : Array (Located ParseError)) (warnings : Array (Located ParseWarning))
    (s : ParseState) : ParseState where
  entries := before ++ s.entries.map (Entry.moved base.shift)
  rest := s.rest.map (Entry.moved base.shift)
  seen := s.seen + before.length
  taken := s.taken + before.length
  previousEnd := base.shift s.previousEnd
  errors := errors ++ s.errors.map (Located.moved base.shift)
  warnings := warnings ++ s.warnings.map (Located.moved base.shift)

variable {base : Position} {before : List Entry}
  {errors : Array (Located ParseError)} {warnings : Array (Located ParseWarning)}
  (s : ParseState)

/-- The notes on the tokens before come first. -/
theorem notes_shifted : (s.shifted base before errors warnings).notes =
    before.flatMap Entry.notes ++ s.notes.map (Notes.moved base.shift) := by
  unfold notes shifted
  dsimp only
  rw [List.take_append, List.take_of_length_le (Nat.le_add_left _ _),
    Nat.add_sub_cancel, ← List.map_take, List.flatMap_append, List.flatMap_map,
    List.map_flatMap]
  rfl

/-- The lexical errors of the text before come first. -/
theorem lexicalErrors_shifted :
    (s.shifted base before errors warnings).lexicalErrors =
      (before.flatMap Entry.notes).filterMap Notes.error ++
        s.lexicalErrors.map (Located.moved base.shift) := by
  unfold lexicalErrors
  rw [notes_shifted, List.filterMap_append, List.filterMap_map, List.map_filterMap]
  rfl

/-- The lexical warnings of the text before come first. -/
theorem lexicalWarnings_shifted :
    (s.shifted base before errors warnings).lexicalWarnings =
      (before.flatMap Entry.notes).flatMap Notes.warnings ++
        s.lexicalWarnings.map (Located.moved base.shift) := by
  unfold lexicalWarnings
  rw [notes_shifted, List.flatMap_append, List.flatMap_map, List.map_flatMap]
  rfl

/-- The errors of the text before are counted as well. -/
theorem errorCount_shifted : (s.shifted base before errors warnings).errorCount =
    s.errorCount + (errors.size +
      ((before.flatMap Entry.notes).filterMap Notes.error).length) := by
  unfold errorCount
  rw [lexicalErrors_shifted]
  simp only [shifted, Array.size_append, Array.size_map, List.length_append,
    List.length_map]
  omega

/-- An error at a place of the text behind. -/
theorem raised_shifted (cause : ParseError) (position : Position) :
    (s.shifted base before errors warnings).raised cause (base.shift position) =
      (s.raised cause position).shifted base before errors warnings := by
  simp only [raised, shifted, Array.map_push, Array.push_append]
  rfl

/-- A warning at a place of the text behind. -/
theorem warned_shifted (cause : ParseWarning) (position : Position) :
    (s.shifted base before errors warnings).warned cause (base.shift position) =
      (s.warned cause position).shifted base before errors warnings := by
  simp only [warned, shifted, Array.map_push, Array.push_append]
  rfl

/-- To look ahead in the text behind. -/
theorem look_shifted (n : Nat) : (s.shifted base before errors warnings).look n =
    (s.look n).shifted base before errors warnings := by
  simp only [shifted, look, Nat.add_max_add_right, Nat.add_right_comm]

/-- The next token of the text behind. -/
theorem token_shifted :
    (s.shifted base before errors warnings).token = s.token.moved base.shift := by
  unfold shifted token
  cases s.rest <;> rfl

/-- To take a token of the text behind. -/
theorem take_shifted : (s.shifted base before errors warnings).take =
    s.take.shifted base before errors warnings := by
  have hseen : max (s.seen + before.length) (s.taken + before.length + 1) =
      max s.seen (s.taken + 1) + before.length := by omega
  unfold take
  rw [token_shifted]
  simp only [shifted, hseen, Nat.add_right_comm, List.map_tail]
  rfl

end ParseState

namespace Pairing

open ParseState

/-- A parse beside one that has some tokens and reports before it. -/
def shifted (base : Position) (before : List Entry)
    (errors : Array (Located ParseError))
    (warnings : Array (Located ParseWarning)) : Pairing ParseState where
  strict := False
  even := True
  total := 0
  ahead := before.length
  surplus :=
    errors.size + ((before.flatMap Entry.notes).filterMap Notes.error).length
  move := base.shift
  clear _ := True
  pairs s s' := s' = s.shifted base before errors warnings

instance (base : Position) (before : List Entry)
    (errors : Array (Located ParseError))
    (warnings : Array (Located ParseWarning)) :
    (shifted base before errors warnings).LawfulAtHand where
  move_later := base.later_shift
  move_earlier := base.earlier_shift
  clear_of_leads _ _ := trivial
  not_clear_raised _ _ _ h := h.elim
  raised cause position hs _ :=
    (congrArg _ hs).trans (raised_shifted _ cause position)
  warned cause position hs :=
    (congrArg _ hs).trans (warned_shifted _ cause position)
  look n hs _ := (congrArg _ hs).trans (look_shifted _ n)
  take hs _ := (congrArg _ hs).trans (take_shifted _)
  token_eq hs _ := (congrArg _ hs).trans (token_shifted _)
  secondKind_eq {s s'} hs _ := by
    rw [hs]
    unfold secondKind ParseState.shifted
    rcases s.rest with _ | ⟨_, _ | ⟨_, _⟩⟩ <;> rfl
  taken_eq hs := by rw [hs]; rfl
  errorCount_eq hs _ := (congrArg _ hs).trans (errorCount_shifted _)
  previousEnd_eq hs := by rw [hs]; rfl
  length_eq _ hs := by rw [hs]; exact List.length_map _
  length_le hs := Nat.le_of_eq (by rw [hs]; exact (List.length_map _).symm)
  total_eq h := absurd trivial h

end Pairing

namespace ParseState

variable {s s' t : ParseState} {o : ParseOutcome} {os : List ParseOutcome}

/-- Every step takes a token. -/
theorem advance_length_lt (hend : s.atEnd = false) :
    s.advance.2.rest.length < s.rest.length := by
  have htook : s.taken < s.advance.2.taken := by
    rw [advance_of_not_atEnd hend]
    dsimp only
    have hleads := (statement_leads s).taken_le
    have hbehind := (statement_leads_behind s).taken_le
    by_cases hskip : ((Parse.statement (s.look 1)).1.isNone &&
        (Parse.statement (s.look 1)).2.taken == s.taken) = true
    · have htake : s.behind = (Parse.statement (s.look 1)).2.take := if_pos hskip
      rw [htake]
      exact Nat.lt_succ_of_le hleads
    · -- Without a statement something else was taken, and a statement has a token.
      have hsome : s.taken < (Parse.statement (s.look 1)).2.taken := by
        cases hst : (Parse.statement (s.look 1)).1 with
        | none =>
            rw [hst] at hskip
            have hne : (Parse.statement (s.look 1)).2.taken ≠ s.taken := by
              simpa using hskip
            exact Nat.lt_of_le_of_ne hleads hne.symm
        | some st =>
            have hs : (Pairing.shifted Position.start [] #[] #[]).pairs
              (s.look 1) _ := rfl
            exact ((Pairing.statement_pairs hs trivial).2.2 st hst).1
      exact Nat.lt_of_lt_of_le hsome hbehind
  obtain ⟨es, hwalk⟩ := s.advance_walk
  have htaken := hwalk.taken_eq
  rw [hwalk.rest_eq, List.length_append]
  omega

/-- There are no more outcomes than tokens. -/
theorem Yields.length_le (h : s.Yields os t) : os.length ≤ s.rest.length := by
  induction h with
  | refl => exact Nat.zero_le _
  | step hend _ ih => exact Nat.lt_of_le_of_lt ih (advance_length_lt hend)

/-- The outcomes of a script are those of the steps to the end of the text. -/
theorem outcomesUpTo_yields {fuel : Nat} (hfuel : s.rest.length < fuel) :
    ∃ t, s.Yields (s.outcomesUpTo fuel).1 t ∧ t.atEnd = true ∧
      (s.outcomesUpTo fuel).2 = t.look 1 := by
  induction fuel generalizing s with
  | zero => exact absurd hfuel (Nat.not_lt_zero _)
  | succ fuel ih =>
      cases hend : s.atEnd with
      | true =>
          rw [outcomesUpTo_of_atEnd hend]
          exact ⟨s, .refl s, hend, rfl⟩
      | false =>
          have hless := advance_length_lt hend
          obtain ⟨t, hyields, hatEnd, hstate⟩ := ih (s := s.advance.2) (by omega)
          rw [outcomesUpTo_of_not_atEnd hend]
          exact ⟨t, .step hend hyields, hatEnd, hstate⟩

/-- The steps to the end of the text are all there are. -/
theorem Yields.outcomesUpTo_eq (h : s.Yields os t) (ht : t.atEnd = true)
    {fuel : Nat} (hfuel : s.rest.length < fuel) :
    s.outcomesUpTo fuel = (os, t.look 1) := by
  induction h generalizing fuel with
  | refl s =>
      obtain ⟨fuel, rfl⟩ : ∃ k, fuel = k + 1 := ⟨fuel - 1, by omega⟩
      exact outcomesUpTo_of_atEnd ht fuel
  | @step s t os hend h ih =>
      have hless := advance_length_lt hend
      obtain ⟨fuel, rfl⟩ : ∃ k, fuel = k + 1 := ⟨fuel - 1, by omega⟩
      rw [outcomesUpTo_of_not_atEnd hend, ih ht (by omega)]

/-- A parse yields its outcomes one after the other, up to the end of the text. -/
theorem outcomes_yields (s : ParseState) :
    ∃ t, s.Yields s.outcomes.1 t ∧ t.atEnd = true ∧ s.outcomes.2 = t.look 1 :=
  outcomesUpTo_yields (Nat.lt_succ_self _)

/-- What is yielded up to the end of the text are the outcomes. -/
theorem Yields.outcomes_eq (h : s.Yields os t) (ht : t.atEnd = true) :
    s.outcomes = (os, t.look 1) :=
  h.outcomesUpTo_eq ht (Nat.lt_succ_self _)

end ParseState

/-! ## A text behind -/

namespace Pairing

open ParseState

/-- A parse beside one that has more tokens in place of the end of the text. -/
def extended (before : List Entry) (last : Entry) (behind : List Entry) :
    Pairing ParseState where
  strict := False
  even := False
  total := before.length + 1
  ahead := 0
  surplus := 0
  move := id
  clear s := s.seen ≤ before.length
  pairs s s' := ∃ left, s.entries = before ++ [last] ∧ s.rest = left ++ [last] ∧
    s.taken + left.length = before.length ∧
      s' = { s with entries := before ++ behind, rest := left ++ behind }

/-- A parse that is clear has not looked past the tokens that both texts have. -/
theorem extended_lawful (before : List Entry) (last : Entry) {behind : List Entry}
    (hbehind : behind ≠ []) :
    (extended before last behind).LawfulAtHand where
  move_later _ _ := rfl
  move_earlier _ _ := rfl
  clear_of_leads hleads hclear := Nat.le_trans hleads.seen_le hclear
  not_clear_raised _ _ _ h := h.elim
  raised cause position hs _ := by
    obtain ⟨left, hentries, hrest, htaken, rfl⟩ := hs
    exact ⟨left, hentries, hrest, htaken, rfl⟩
  warned cause position hs := by
    obtain ⟨left, hentries, hrest, htaken, rfl⟩ := hs
    exact ⟨left, hentries, hrest, htaken, rfl⟩
  look n hs _ := by
    obtain ⟨left, hentries, hrest, htaken, rfl⟩ := hs
    exact ⟨left, hentries, hrest, htaken, rfl⟩
  take hs hclear := by
    obtain ⟨left, hentries, hrest, htaken, rfl⟩ := hs
    simp only [extended, ParseState.take] at hclear
    cases left with
    | nil =>
        simp only [List.length_nil] at htaken
        omega
    | cons e left =>
        refine ⟨left, hentries, ?_, ?_, ?_⟩
        · simp only [ParseState.take, hrest, List.cons_append, List.tail_cons]
        · simp only [ParseState.take, List.length_cons] at htaken ⊢
          omega
        · simp only [ParseState.take, token, hrest, List.cons_append,
            List.tail_cons]
  token_eq hs hclear := by
    obtain ⟨left, hentries, hrest, htaken, rfl⟩ := hs
    simp only [extended, ParseState.look] at hclear
    cases left with
    | nil =>
        simp only [List.length_nil] at htaken
        omega
    | cons e left =>
        simp only [extended, token, hrest, List.cons_append, Token.moved_id]
  secondKind_eq hs hclear := by
    obtain ⟨left, hentries, hrest, htaken, rfl⟩ := hs
    simp only [extended, ParseState.look] at hclear
    rcases left with _ | ⟨e, _ | ⟨f, left⟩⟩
    · simp only [List.length_nil] at htaken
      omega
    · simp only [List.length_cons, List.length_nil] at htaken
      omega
    · simp only [secondKind, hrest, List.cons_append]
  taken_eq hs := by
    obtain ⟨left, hentries, hrest, htaken, rfl⟩ := hs
    rfl
  errorCount_eq hs hclear := by
    obtain ⟨left, hentries, hrest, htaken, rfl⟩ := hs
    simp only [extended, errorCount, lexicalErrors, notes, hentries,
      List.take_append_of_le_length hclear, Nat.add_zero]
  previousEnd_eq hs := by
    obtain ⟨left, hentries, hrest, htaken, rfl⟩ := hs
    rfl
  length_eq h := h.elim
  length_le hs := by
    obtain ⟨left, hentries, hrest, htaken, rfl⟩ := hs
    have hpos := List.length_pos_iff.mpr hbehind
    simp only [hrest, List.length_append, List.length_cons, List.length_nil]
    omega
  total_eq _ hs := by
    obtain ⟨left, hentries, hrest, htaken, rfl⟩ := hs
    simp only [extended, hrest, List.length_append, List.length_cons,
      List.length_nil]
    omega

end Pairing

/-! ## Statements that are terminated -/

namespace Parse

/-- Whoever has eaten a token has found it. -/
theorem eat_eq_true {kind : TokenKind} {s s' : ParseState}
    (h : eat kind s = (some true, s')) :
    s.token.kind = kind ∧ s' = (s.look 1).take := by
  by_cases hkind : s.token.kind = kind
  · rw [← bind_yield (eat kind), eat_bind_of_eq hkind] at h
    cases h
    exact ⟨hkind, rfl⟩
  · rw [← bind_yield (eat kind), eat_bind_of_ne hkind] at h
    cases h

/-- A statement that is terminated ends with the semicolon, and was parsed without a
look behind it. -/
theorem statement_terminated {n : Nat} {r : Rules ParseState} (hr : r.Sound n)
    {s s' : ParseState} {st : Stmt} (h : Grammar.statement r s = (some st, s'))
    (hs : s.rest.length < n + 1) (hterminated : st.terminated = true) :
    ∃ s₁ es, s.Walk es s₁ ∧ s₁.token.kind = .symbol .semicolon ∧
      s'.rest = s₁.take.rest ∧
      s'.seen = s₁.take.seen ∧ s'.previousEnd = s₁.token.span.stop := by
  obtain ⟨start, t₁, hstart, h⟩ := bind_eq_some h
  obtain ⟨action, t₂, haction, h⟩ := bind_eq_some h
  obtain ⟨terminated, t₃, heat, h⟩ := bind_eq_some h
  cases hstart
  obtain ⟨es, hwalk, _⟩ := Grammar.action_writes hr (s.look 1) hs
  rw [haction] at hwalk
  have hend : st.terminated = terminated ∧ s'.rest = t₃.rest ∧ s'.seen = t₃.seen ∧
      s'.previousEnd = t₃.previousEnd := by
    cases action with
    | evaluate e =>
        dsimp only at h
        split at h
        · cases h
          exact ⟨rfl, rfl, rfl, rfl⟩
        · cases h
          exact ⟨rfl, rfl, rfl, rfl⟩
    | _ =>
        cases h
        exact ⟨rfl, rfl, rfl, rfl⟩
  obtain ⟨rfl, hrest, hseen, hprevious⟩ := hend
  rw [hterminated] at heat
  obtain ⟨hkind, rfl⟩ := eat_eq_true heat
  exact ⟨t₂.look 1, _, ((ParseState.Walk.look s).trans hwalk).trans
    (ParseState.Walk.look t₂), hkind, hrest,
    hseen, hprevious⟩

end Parse

namespace ParseState

variable {s t : ParseState} {o : ParseOutcome} {st : Stmt}

/-- A step whose statement is terminated takes its semicolon last, and looks no
further. -/
theorem advance_terminated (hs : s.Between) (h : s.advance = (o, t))
    (ho : o.statement = some st) (hterminated : st.terminated = true) :
    ∃ before e, s.entries = before ++ e :: t.rest ∧
      e.token.lexeme = .symbol .semicolon ∧
      t.seen ≤ before.length + 1 ∧ t.previousEnd = e.token.span.stop := by
  have hst : s.advance.1.statement = some st := by rw [h, ho]
  obtain ⟨_, hrun, _⟩ := advance_statement hst
  rw [h, Parse.statement_eq] at hrun
  obtain ⟨s₁, es, hwalk, hkind, hrest, hseen, hprevious⟩ :=
    Parse.statement_terminated
    (Rules.upTo_sound (s.look 1).rest.length) hrun (Nat.lt_succ_self _) hterminated
  have hs₁ := (look_between hs).walk hwalk
  obtain ⟨before, hentries, htaken, _⟩ := hs₁.split
  obtain ⟨e, rest, hcons, htoken⟩ :=
    exists_cons_of_token (s := s₁) (by rw [hkind]; decide)
  refine ⟨before, e, ?_, ?_, ?_, ?_⟩
  · have hsame : s₁.entries = s.entries := hwalk.entries_eq
    rw [← hsame, hentries, hcons, hrest]
    simp only [take, hcons, List.tail_cons]
  · rw [← htoken]
    exact Lexeme.eq_of_kind hkind rfl
  · have hle := hs₁.seen_le
    simp only [take] at hseen
    omega
  · rw [hprevious, htoken]

/-- The end of a statement that has a token is the end of the last one. -/
theorem advance_stop (limit : Nat) {source : String} (hs : s.Between)
    (hentries : s.entries = Entry.ofText limit source) (h : s.advance = (o, t))
    (ho : o.statement = some st) (hstop : st.span.stop = Position.extent source) :
    t.previousEnd = Position.extent source := by
  have hst : s.advance.1.statement = some st := by rw [h, ho]
  obtain ⟨hkind, hrun, _⟩ := advance_statement hst
  rw [h, Parse.statement_eq] at hrun
  have hspan := Parse.statement_span (r := Rules.upTo (s.look 1).rest.length) hrun
  rw [hspan, token_look] at hstop
  by_cases hlater : t.previousEnd.order s.token.span.start = .gt
  · rwa [Position.later, if_pos hlater] at hstop
  · -- Otherwise the statement would begin where the text ends.
    rw [Position.later, if_neg hlater] at hstop
    obtain ⟨e, rest, hcons, htoken⟩ := exists_cons_of_token hkind
    obtain ⟨before, hsplit, _, _⟩ := hs.split
    have hmem : e ∈ Entry.ofText limit source := by
      rw [← hentries, hsplit, hcons]
      simp
    obtain ⟨l, hl, hltoken⟩ := Entry.mem_gather hmem
    rw [htoken, ← hltoken] at hstop hkind
    have hsolid : (Cursor.ofText source).Solid :=
      Glyph.width_pos_of_mem source.toList
    have hwide := ((Lexed.all_ordered limit hsolid).1 l hl).width_pos (.inl hkind)
    have hle : l.token.span.stop.offset ≤ (Position.extent source).offset :=
      Lexed.stop_le_of_mem_all limit hsolid hl
    rw [← hstop] at hle
    exact absurd hle (Nat.not_le.mpr hwide)

end ParseState

/-! ## Outcomes -/

open ParseState

/-- The statement of the last outcome. -/
def ParseState.lastStatement? (s : ParseState) : Option Stmt :=
  s.outcomes.1.getLast?.bind ParseOutcome.statement

/-- A text that ends with the semicolon of its last statement. -/
structure EndsInStatement (limit : Nat) (source : String) : Prop where
  terminated : ∃ st ∈ (ParseState.ofText limit source).lastStatement?,
    st.terminated = true ∧ st.span.stop = Position.extent source
  semicolon : source.toList.getLast? = some ';'

instance (limit : Nat) (source : String) :
    Decidable (EndsInStatement limit source) :=
  decidable_of_iff (_ ∧ _) ⟨fun h => ⟨h.1, h.2⟩, fun h => ⟨h.1, h.2⟩⟩

/-- Behind the last token that is not the end of the text, only the end is left. -/
theorem rest_eq_of_atEnd {t : ParseState} {before taken : List Entry} {e : Entry}
    {p : Position} (hkinds : ∀ e ∈ before, e.token.kind ≠ .endOfText)
    (hsplit : taken ++ e :: t.rest = before ++ [Entry.endAt p])
    (he : e.token.lexeme = .symbol .semicolon) (hatEnd : t.atEnd = true) :
    t.rest = [Entry.endAt p] ∧ before.length = taken.length + 1 := by
  rcases List.eq_nil_or_concat t.rest with hnil | ⟨left, last, hconcat⟩
  · rw [hnil] at hsplit
    obtain ⟨_, hlast⟩ := List.append_inj' hsplit rfl
    obtain rfl : e = Entry.endAt p := List.head_eq_of_cons_eq hlast
    cases he
  · rw [List.concat_eq_append] at hconcat
    rw [hconcat, ← List.cons_append, ← List.append_assoc] at hsplit
    obtain ⟨hbefore, hlast⟩ := List.append_inj' hsplit rfl
    obtain rfl : last = Entry.endAt p := List.head_eq_of_cons_eq hlast
    cases left with
    | nil => exact ⟨hconcat, by rw [← hbefore, List.length_append]; rfl⟩
    | cons f left =>
        have hkind : f.token.kind = .endOfText := by
          simpa [atEnd, token, hconcat] using hatEnd
        exact absurd hkind (hkinds f (by rw [← hbefore]; simp))

/-- At the end of such a text, the parse has looked at everything but the end, and a
text that is put behind begins there. -/
theorem EndsInStatement.boundary {limit : Nat} {p : String}
    (h : EndsInStatement limit p) (q : String) :
    ∃ before t, (ParseState.ofText limit p).Yields
      (ParseState.ofText limit p).outcomes.1 t ∧
      (ParseState.ofText limit p).outcomes.2 = t.look 1 ∧
      Entry.ofText limit p = before ++ [Entry.endAt (Position.extent p)] ∧
      Entry.ofText limit (p ++ q) =
        before ++ (Entry.ofText limit q).map
          (Entry.moved (Position.extent p).shift) ∧
      t.entries = Entry.ofText limit p ∧
      t.rest = [Entry.endAt (Position.extent p)] ∧
      t.taken = before.length ∧ t.seen = before.length ∧
        t.previousEnd = Position.extent p := by
  obtain ⟨st, hlast, hterminated, hstop⟩ := h.terminated
  obtain ⟨o, ho, hst⟩ := Option.bind_eq_some_iff.mp hlast
  obtain ⟨t, hyields, hatEnd, hstate⟩ := outcomes_yields (ParseState.ofText limit p)
  obtain ⟨os, s₁, hbefore, hend, hadvance⟩ := hyields.exists_last ho
  have hs₁ : s₁.Between := hbefore.between (ofEntries_between _)
  have hentries : s₁.entries = Entry.ofText limit p := hbefore.entries_eq
  have hprevious := advance_stop limit hs₁ hentries hadvance hst hstop
  obtain ⟨taken, e, hsplit, hlexeme, hseen, hstop'⟩ :=
    advance_terminated hs₁ hadvance hst hterminated
  have hmem : e ∈ Entry.ofText limit p := by
    rw [← hentries, hsplit]
    simp
  obtain ⟨before, hkinds, hfirst, hboth⟩ :=
    Entry.ofText_append limit q h.semicolon hmem hlexeme
      (hstop'.symm.trans hprevious)
  obtain ⟨hrest, hlength⟩ :=
    rest_eq_of_atEnd hkinds (hsplit.symm.trans (hentries.trans hfirst))
      hlexeme hatEnd
  have ht : t.Between := hyields.between (ofEntries_between _)
  have htentries : t.entries = Entry.ofText limit p := hyields.entries_eq
  have htaken : t.taken = before.length := by
    obtain ⟨all, hall, htaken, _⟩ := ht.split
    rw [htentries, hfirst, hrest] at hall
    rw [htaken, List.append_cancel_right hall]
  have hle := ht.taken_le
  exact ⟨before, t, hyields, hstate, hfirst, hboth, htentries, hrest,
    htaken, by omega, hprevious⟩

/-- The parse of two texts goes on behind the first one as the parse of the
second. -/
theorem EndsInStatement.outcomes_append {limit : Nat} {p : String}
    (h : EndsInStatement limit p) (q : String) :
    ∃ before, (ParseState.ofText limit p).outcomes.2.notes =
      before.flatMap Entry.notes ++ [⟨none, []⟩] ∧
      (ParseState.ofText limit (p ++ q)).outcomes =
        ((ParseState.ofText limit p).outcomes.1 ++
            (ParseState.ofText limit q).outcomes.1.map
              (ParseOutcome.moved (Position.extent p).shift),
          (ParseState.ofText limit q).outcomes.2.shifted (Position.extent p) before
            (ParseState.ofText limit p).outcomes.2.errors
              (ParseState.ofText limit p).outcomes.2.warnings) := by
  obtain ⟨before, t, hfirst, hstate, hentries, hboth, htentries, hrest, htaken,
    hseen, hprevious⟩ := h.boundary q
  have hbehind : (Entry.ofText limit q).map
      (Entry.moved (Position.extent p).shift) ≠ [] := by
    simpa using Entry.ofText_ne_nil limit q
  refine ⟨before, ?_, ?_⟩
  · rw [hstate, notes]
    simp only [look, htentries, hentries, hseen, htaken]
    rw [List.take_of_length_le (by simp), List.flatMap_append]
    rfl
  · -- The first text, with the second one behind it.
    have hlawful :=
      Pairing.extended_lawful before (Entry.endAt (Position.extent p)) hbehind
    have hs : (Pairing.extended before (Entry.endAt (Position.extent p))
        ((Entry.ofText limit q).map (Entry.moved (Position.extent p).shift))).pairs
        (ParseState.ofText limit p) (ParseState.ofText limit (p ++ q)) := by
      refine ⟨before, hentries, hentries, Nat.zero_add _, ?_⟩
      rw [ParseState.ofText, ParseState.ofText, hboth]
      rfl
    obtain ⟨t', ht', left, _, _, hleft, rfl⟩ := hfirst.pairs hs (Nat.le_of_eq hseen)
    have hmoved : ParseOutcome.moved id = id := funext ParseOutcome.moved_id
    -- The second text, with the first one before it.
    obtain ⟨t₂, hsecond, hatEnd, hstate₂⟩ :=
      outcomes_yields (ParseState.ofText limit q)
    obtain ⟨t₂', ht₂', hpairs⟩ := hsecond.pairs
      (P := Pairing.shifted (Position.extent p) before t.errors t.warnings) rfl
        trivial
    have hatEnd' : t₂'.atEnd = true :=
      (Pairing.atEnd_eq hpairs trivial).trans hatEnd
    have hmiddle : { t with
        entries :=
          before ++ (Entry.ofText limit q).map
            (Entry.moved (Position.extent p).shift)
        rest :=
          left ++ (Entry.ofText limit q).map
            (Entry.moved (Position.extent p).shift) } =
          (ParseState.ofText limit q).shifted (Position.extent p) before t.errors
            t.warnings := by
      obtain rfl : left = [] := List.eq_nil_of_length_eq_zero (by omega)
      simp [shifted, ParseState.ofText, ofEntries, hseen, htaken, hprevious,
        Position.shift_start (Position.real_extent p)]
    rw [hmiddle] at ht'
    rw [(ht'.trans ht₂').outcomes_eq hatEnd', show t₂' = _ from hpairs,
      look_shifted, hstate₂, hstate]
    show (List.map (ParseOutcome.moved id) _ ++ _, _) = _
    rw [hmoved, List.map_id]
    rfl

/-- The outcomes of two texts, and what is reported on them, one behind the
other. -/
theorem EndsInStatement.reports_append {limit : Nat} {p : String}
    (h : EndsInStatement limit p) (q : String) :
    let first := (ParseState.ofText limit p).outcomes
    let second := (ParseState.ofText limit q).outcomes
    let both := (ParseState.ofText limit (p ++ q)).outcomes
    let move := (Position.extent p).shift
    both.1 = first.1 ++ second.1.map (ParseOutcome.moved move) ∧
      both.2.errors = first.2.errors ++ second.2.errors.map (Located.moved move) ∧
      both.2.warnings = first.2.warnings ++ second.2.warnings.map
        (Located.moved move) ∧
      both.2.lexicalErrors = first.2.lexicalErrors ++ second.2.lexicalErrors.map
        (Located.moved move) ∧
      both.2.lexicalWarnings =
        first.2.lexicalWarnings ++ second.2.lexicalWarnings.map
            (Located.moved move) := by
  obtain ⟨before, hnotes, hboth⟩ := h.outcomes_append q
  have herrors : (ParseState.ofText limit p).outcomes.2.lexicalErrors =
      (before.flatMap Entry.notes).filterMap Notes.error := by
    rw [lexicalErrors, hnotes, List.filterMap_append]
    simp
  have hwarnings : (ParseState.ofText limit p).outcomes.2.lexicalWarnings =
      (before.flatMap Entry.notes).flatMap Notes.warnings := by
    rw [lexicalWarnings, hnotes, List.flatMap_append]
    simp
  dsimp only
  rw [hboth, lexicalErrors_shifted, lexicalWarnings_shifted, herrors, hwarnings]
  exact ⟨rfl, rfl, rfl, rfl, rfl⟩

end ScriptLang
