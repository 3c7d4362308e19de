import ScriptLang.Proofs.Eval.Runs
import ScriptLang.Proofs.Parse.Soundness
import ScriptLang.Proofs.Token.Order

/-!
# Lexical errors inside statements

The errors of the lexer are counted when a token is looked at, and a statement
counts as cleanly parsed when no error was counted between the first look at it and
its end.  The first token has been looked at before the count is taken, so that an
error in it is missed; all others are first looked at while the statement is parsed.
So a token inside a statement that parsed cleanly is well formed unless it is the
first one (`Stmt.MalformedAtStart`).
-/

namespace ScriptLang

/-! ## Tokens and entries -/

namespace Entry

/-- The first entry stands for the comments before a token and the token itself. -/
theorem gather_eq_cons {pending : List Notes} {ls : List Lexed} {e : Entry}
    {es : List Entry} (h : gather pending ls = e :: es) :
    ∃ comments l rest, ls = comments ++ l :: rest ∧ e.token = l.token ∧
      e.notes = pending ++ comments.map Lexed.notes ++ [l.notes] ∧
        gather [] rest = es := by
  induction ls generalizing pending with
  | nil => cases h
  | cons l ls ih =>
      unfold gather at h
      split at h
      · obtain ⟨comments, k, rest, rfl, htoken, hnotes, hrest⟩ := ih h
        exact ⟨l :: comments, k, rest, rfl, htoken, by simp [hnotes], hrest⟩
      · obtain ⟨rfl, rfl⟩ := List.cons.inj h
        exact ⟨[], l, ls, rfl, rfl, by simp, rfl⟩

/-- Entries stand for stretches of tokens that follow each other. -/
theorem gather_eq_append {ls : List Lexed} {es fs : List Entry}
    (h : gather [] ls = es ++ fs) :
    ∃ ks rest, ls = ks ++ rest ∧ es.flatMap Entry.notes = ks.map Lexed.notes ∧
      (∀ e ∈ es, ∃ l ∈ ks, l.token = e.token) ∧ gather [] rest = fs := by
  induction es generalizing ls with
  | nil => exact ⟨[], ls, rfl, rfl, by simp, h⟩
  | cons e es ih =>
      obtain ⟨comments, l, behind, rfl, htoken, hnotes, hbehind⟩ := gather_eq_cons h
      obtain ⟨ks, rest, rfl, hflat, htokens, hrest⟩ := ih hbehind
      refine ⟨comments ++ l :: ks,
        rest, by simp, by simp [hnotes, hflat], ?_, hrest⟩
      intro f hf
      rcases List.mem_cons.mp hf with rfl | hf
      · exact ⟨l, by simp, htoken.symm⟩
      · obtain ⟨k, hk, hkf⟩ := htokens f hf
        exact ⟨k, by simp [hk], hkf⟩

end Entry

/-! ## Steps through a script -/

namespace ParseState

/-- A state between two statements. -/
structure Between (s : ParseState) : Prop where
  split : ∃ before, s.entries = before ++ s.rest ∧ s.taken = before.length ∧
    s.previousEnd = endOf before Position.start
  seen_le : s.seen ≤ s.taken + 1
  taken_le : s.taken ≤ s.seen

/-- Behind a walk, a parse stands between two tokens. -/
theorem Between.walk {s s' : ParseState} {es : List Entry} (hs : s.Between)
    (h : s.Walk es s') :
    s'.Between where
  split := by
    obtain ⟨before, hentries, htaken, hend⟩ := hs.split
    refine ⟨before ++ es, ?_, ?_, ?_⟩
    · rw [h.entries_eq, hentries, h.rest_eq, List.append_assoc]
    · rw [h.taken_eq, htaken, List.length_append]
    · rw [h.previousEnd_eq, hend, endOf_append]
  seen_le := by
    have hahead := h.seen_ahead
    have hseen := hs.seen_le
    have htaken := h.taken_eq
    omega
  taken_le := h.seen_taken hs.taken_le

/-- At the beginning, a parse stands before the first token. -/
theorem ofEntries_between (entries : List Entry) : (ofEntries entries).Between where
  split := ⟨[], rfl, rfl, rfl⟩
  seen_le := Nat.zero_le _
  taken_le := Nat.le_refl _

/-- A step walks, whatever it yields. -/
theorem advance_walk (s : ParseState) : ∃ es, s.Walk es s.advance.2 := by
  rw [advance_eq]
  dsimp only
  split
  · exact ⟨[], Walk.look s⟩
  · rename_i hend
    obtain ⟨es, hwalk, _⟩ := Parse.statement_writesAt (s.look 1)
    have hall := (Walk.look s).trans hwalk
    split
    · -- Nothing was taken, so the token that is not the end of the text is still
      -- there to be skipped.
      rename_i hskip
      have htaken : (Parse.statement (s.look 1)).2.taken = s.taken := by
        simp only [Bool.and_eq_true, beq_iff_eq] at hskip
        exact hskip.2
      have hes : es = [] := by
        have hlength := hwalk.taken_eq
        rw [htaken] at hlength
        exact List.eq_nil_of_length_eq_zero (by simpa [look] using hlength)
      subst hes
      have hkind : s.token.kind ≠ .endOfText :=
        fun hkind => hend (by simp [atEnd, hkind])
      have htoken := hall.token_eq hkind
      obtain ⟨e, htake, _⟩ :=
        Walk.take (s := (Parse.statement (s.look 1)).2) (htoken ▸ hkind)
      exact ⟨_, hall.trans htake⟩
    · exact ⟨_, hall⟩

/-- Behind a statement, a parse stands between two tokens. -/
theorem advance_between {s : ParseState} (hs : s.Between) :
    s.advance.2.Between := by
  obtain ⟨es, hwalk⟩ := s.advance_walk
  exact hs.walk hwalk

/-- To look ahead is not to move. -/
theorem look_between {s : ParseState} (hs : s.Between) : (s.look 1).Between :=
  hs.walk (Walk.look s)

end ParseState

/-! ## Where statements stand -/

/-- A span that lies inside another one. -/
def Span.Within (inner outer : Span) : Prop :=
  outer.start.offset ≤ inner.start.offset ∧ inner.stop.offset ≤ outer.stop.offset

instance (inner outer : Span) : Decidable (inner.Within outer) :=
  inferInstanceAs (Decidable (_ ∧ _))

/-- The later of two places has the larger offset. -/
theorem Position.offset_later (a b : Position) :
    (a.later b).offset = max a.offset b.offset := by
  unfold Position.later Position.order
  rcases Nat.lt_trichotomy a.offset b.offset with h | h | h
  · have hcompare : compare a.offset b.offset = .lt := Nat.compare_eq_lt.mpr h
    simp [hcompare]
    omega
  · split <;> omega
  · have hcompare : compare a.offset b.offset = .gt := Nat.compare_eq_gt.mpr h
    simp [hcompare]
    omega

namespace Parse

/-- Parsers one after the other that succeed both succeed. -/
theorem bind_eq_some {p : Parse β} {f : β → Parse α} {a : α} {s s' : ParseState}
    (h : (p >>= f) s = (some a, s')) :
    ∃ b t, p s = (some b, t) ∧ f b t = (some a, s') := by
  rcases hrun : p s with ⟨_ | b, t⟩
  · rw [bind_of_none hrun] at h
    cases h
  · rw [bind_of_some hrun] at h
    exact ⟨b, t, rfl, h⟩

/-- A statement covers the text from its first token to the last one it took. -/
theorem statement_span {r : Rules ParseState} {s s' : ParseState} {st : Stmt}
    (h : Grammar.statement r s = (some st, s')) :
    st.span = ⟨s.token.span.start, s'.previousEnd.later s.token.span.start⟩ := by
  obtain ⟨start, s₁, hstart, h⟩ := bind_eq_some h
  obtain ⟨action, s₂, _, h⟩ := bind_eq_some h
  obtain ⟨terminated, s₃, _, h⟩ := bind_eq_some h
  cases hstart
  cases action with
  | evaluate e =>
      dsimp only at h
      split at h
      · cases h
        rfl
      · cases h
        rfl
  | _ =>
      cases h
      rfl

end Parse

namespace ParseState

/-- If no error was counted, no syntax error was raised, and there is no lexical
error in the entries that were looked at meanwhile. -/
theorem Walk.of_errorCount_eq {s s' : ParseState} {es : List Entry}
    (h : s.Walk es s') (hcount : s'.errorCount = s.errorCount) :
    s'.errors.size = s.errors.size ∧
      ∀ e ∈ (s.entries.drop s.seen).take (s'.seen - s.seen), ∀ n ∈ e.notes,
        n.error = none := by
  let looked :=
    ((s.entries.drop s.seen).take (s'.seen - s.seen)).flatMap Entry.notes
  have hseen : s'.seen = s.seen + (s'.seen - s.seen) := by
    have hle := h.seen_le
    omega
  have hlexical : s'.lexicalErrors = s.lexicalErrors ++
      looked.filterMap Notes.error := by
    unfold lexicalErrors notes
    rw [h.entries_eq, hseen, List.take_add, List.flatMap_append,
      List.filterMap_append]
  have hsyntax := h.errors_le
  unfold errorCount at hcount
  rw [hlexical, List.length_append] at hcount
  have hnone : looked.filterMap Notes.error = [] :=
    List.eq_nil_of_length_eq_zero (by omega)
  refine ⟨by omega, fun e he n hn => ?_⟩
  exact List.filterMap_eq_nil_iff.mp hnone n (List.mem_flatMap.mpr ⟨e, he, hn⟩)

/-- Everything that a walk takes behind its first token it is also the first to look
at. -/
theorem Between.mem_looked {s s' : ParseState} (hs : s.Between) {first : Entry}
    {taken : List Entry} (hwalk : (s.look 1).Walk (first :: taken) s') {e : Entry}
    (he : e ∈ taken) :
    e ∈ ((s.look 1).entries.drop (s.look 1).seen).take
      (s'.seen - (s.look 1).seen) := by
  obtain ⟨before, hentries, htaken, _⟩ := hs.split
  have hrest : s.rest = first :: taken ++ s'.rest := hwalk.rest_eq
  have hseen : (s.look 1).seen = before.length + 1 := by
    have hle := hs.seen_le
    simp only [look]
    omega
  have hdrop : (s.look 1).entries.drop (s.look 1).seen = taken ++ s'.rest := by
    show s.entries.drop (s.look 1).seen = _
    rw [hseen, hentries, hrest]
    simp
  have hlength : taken.length ≤ s'.seen - (s.look 1).seen := by
    have htaken' := hwalk.taken_eq
    have hle := hwalk.seen_taken (look_between hs).taken_le
    simp only [look, List.length_cons] at htaken' hle
    omega
  rw [hdrop, List.take_append]
  apply List.mem_append_left
  rw [List.take_of_length_le hlength]
  exact he

/-- What a successful step has taken is well formed, apart from its first token. -/
theorem advance_success {s : ParseState} (hs : s.Between)
    (hsuccess : s.advance.1.success = true) {st : Stmt}
    (hst : s.advance.1.statement = some st) :
    ∃ before first taken rest, s.entries = before ++ (first :: taken ++ rest) ∧
      first.token.kind ≠ .endOfText ∧ st.span.start = first.token.span.start ∧
      st.span.stop.offset = max (endOf (first :: taken) Position.start).offset
        first.token.span.start.offset ∧
      ∀ e ∈ taken, ∀ n ∈ e.notes, n.error = none := by
  obtain ⟨hkind, hrun, hsuccess'⟩ := advance_statement hst
  have hcount : s.advance.2.errorCount = (s.look 1).errorCount := by
    rw [hsuccess'] at hsuccess
    exact eq_of_beq hsuccess
  obtain ⟨es, hwalk, hvalue⟩ := Parse.statement_writesAt (s.look 1)
  rw [hrun] at hwalk hvalue
  replace hwalk : (s.look 1).Walk es s.advance.2 := hwalk
  obtain ⟨herrors, hlooked⟩ := hwalk.of_errorCount_eq hcount
  obtain ⟨st', hst', hspells⟩ := hvalue herrors
  cases hst'
  cases es with
  | nil => exact absurd hspells.write_eq st.write_ne_nil
  | cons first taken =>
      obtain ⟨before, hentries, _, _⟩ := hs.split
      have hrest : s.rest = first :: taken ++ s.advance.2.rest := hwalk.rest_eq
      have htoken : s.token = first.token := by simp [token, hrest]
      have hspan := Parse.statement_span ((Parse.statement_eq _).symm.trans hrun)
      refine ⟨before, first, taken,
        s.advance.2.rest, by rw [hentries, hrest], htoken ▸ hkind, ?_, ?_, ?_⟩
      · rw [hspan, ← htoken]
        rfl
      · rw [hspan, Position.offset_later, hwalk.previousEnd_eq, ← htoken]
        rfl
      · intro e he
        exact hlooked e (hs.mem_looked hwalk he)

/-- Some tokens end where one of them ends. -/
theorem endOf_cons (e : Entry) (es : List Entry) (otherwise : Position) :
    ∃ f ∈ e :: es, endOf (e :: es) otherwise = f.token.span.stop := by
  refine ⟨(e :: es).getLast (List.cons_ne_nil _ _), List.getLast_mem _, ?_⟩
  simp [endOf, List.getLast?_eq_some_getLast]

/-- What a successful step has taken, as a stretch of the tokens of the text. -/
theorem advance_stretch {ls : List Lexed} {s : ParseState} (hs : s.Between)
    (hentries : s.entries = Entry.gather [] ls)
    (hsuccess : s.advance.1.success = true) {st : Stmt}
    (hst : s.advance.1.statement = some st) :
    ∃ earlier first inside later, ls = earlier ++ first :: (inside ++ later) ∧
      first.token.kind ≠ .endOfText ∧ st.span.start = first.token.span.start ∧
      (∃ last ∈ first :: inside,
        st.span.stop.offset = max last.token.span.stop.offset
          first.token.span.start.offset) ∧
      ∀ l ∈ inside, l.notes.error = none := by
  obtain ⟨before, e, taken, rest, hsplit, hkind, hstart, hstop, hclean⟩ :=
    advance_success hs hsuccess hst
  obtain ⟨earlier, ks, rfl, _, _, hks⟩ :=
    Entry.gather_eq_append (hentries.symm.trans hsplit)
  obtain ⟨comments, first, ms, rfl, htoken, _, hms⟩ := Entry.gather_eq_cons hks
  obtain ⟨inside, later, rfl, hnotes, htokens, _⟩ := Entry.gather_eq_append hms
  rw [htoken] at hkind hstart hstop
  refine ⟨earlier ++ comments, first, inside, later, by simp, hkind, hstart, ?_, ?_⟩
  · obtain ⟨f, hf, hlast⟩ := endOf_cons e taken Position.start
    rw [hlast] at hstop
    rcases List.mem_cons.mp hf with rfl | hf
    · exact ⟨first, List.mem_cons_self, by rw [hstop, htoken]⟩
    · obtain ⟨last, hmem, heq⟩ := htokens f hf
      exact ⟨last, List.mem_cons_of_mem _ hmem, by rw [hstop, heq]⟩
  · intro l hl
    have hmem : l.notes ∈ taken.flatMap Entry.notes := by
      rw [hnotes]
      exact List.mem_map_of_mem hl
    obtain ⟨f, hf, hnote⟩ := List.mem_flatMap.mp hmem
    exact hclean f hf l.notes hnote

end ParseState

/-- Whether a malformed token stands inside a statement only where the statement
starts. -/
def Stmt.MalformedAtStart (ls : List Lexed) (st : Stmt) : Prop :=
  ∀ l ∈ ls, l.notes.error ≠ none →
    (l.token.span.Within st.span ↔ l.token.span.start = st.span.start)

/-- In a statement that parsed cleanly, only the first token can be malformed. -/
theorem ParseState.advance_malformedAtStart {ls : List Lexed} {s : ParseState}
    (hstands : ∀ l ∈ ls, l.StandsFrom 0) (hordered : Lexed.Ordered ls)
    (hs : s.Between) (hentries : s.entries = Entry.gather [] ls)
    (hsuccess : s.advance.1.success = true) {st : Stmt}
    (hst : s.advance.1.statement = some st) : st.MalformedAtStart ls := by
  obtain ⟨earlier, first, inside, later, rfl, hkind, hstart,
      ⟨last, hlast, hstop⟩, hclean⟩ :=
    advance_stretch hs hentries hsuccess hst
  intro l hl herror
  have hwidth := (hstands l hl).width_pos (.inr herror)
  have hfirst := (hstands first (by simp)).width_pos (.inl hkind)
  obtain ⟨_, hbehind, hbefore⟩ := List.pairwise_append.mp hordered
  obtain ⟨hafter, hrest⟩ := List.pairwise_cons.mp hbehind
  obtain ⟨_, _, hlater⟩ := List.pairwise_append.mp hrest
  unfold Span.Within
  rw [hstart]
  rcases List.mem_append.mp hl with hl | hl
  · -- What stands before the first token ends before the statement starts.
    have hle := hbefore l hl first List.mem_cons_self
    exact ⟨fun h => by omega, fun h => by rw [h] at hwidth; omega⟩
  · rcases List.mem_cons.mp hl with rfl | hl
    · -- The first token ends before the last one does, if they are not the same.
      have hle : l.token.span.stop.offset ≤ last.token.span.stop.offset := by
        rcases List.mem_cons.mp hlast with rfl | hlast
        · exact Nat.le_refl _
        · have hnext := hafter last (List.mem_append_left _ hlast)
          have hwide := (hstands last (by simp [hlast])).start_le_stop
          omega
      exact ⟨fun _ => rfl, fun _ => ⟨Nat.le_refl _, by omega⟩⟩
    · rcases List.mem_append.mp hl with hl | hl
      · exact absurd (hclean l hl) herror
      · -- What stands behind the last token starts behind the end of the statement.
        have hnext := hafter l (List.mem_append_right _ hl)
        have hle : last.token.span.stop.offset ≤ l.token.span.start.offset := by
          rcases List.mem_cons.mp hlast with rfl | hlast
          · exact hnext
          · exact hlater last hlast l hl
        exact ⟨fun h => by omega, fun h => by rw [h] at hnext; omega⟩

/-! ## Whole scripts -/

namespace ParseState

/-- The next outcome is the one of a statement. -/
theorem next?_eq_some {s s' : ParseState} {o : ParseOutcome}
    (h : s.next? = (some o, s')) :
    (s.look 1).advance = (o, s') := by
  rw [next?_eq] at h
  dsimp only at h
  split at h
  · cases h
  · obtain ⟨houtcome, hstate⟩ := Prod.mk.inj h
    exact Prod.ext (Option.some.inj houtcome) hstate

/-- Every outcome is that of a step from a state between two statements of the same
text. -/
theorem exists_advance_of_mem_outcomesUpTo {fuel : Nat} {s : ParseState}
    (hs : s.Between) {o : ParseOutcome} (ho : o ∈ (outcomesUpTo fuel s).1) :
    ∃ s' : ParseState, s'.Between ∧ s'.entries = s.entries ∧ s'.advance.1 = o := by
  induction fuel generalizing s with
  | zero => simp [TokenSource.outcomesUpTo] at ho
  | succ fuel ih =>
      unfold outcomesUpTo TokenSource.outcomesUpTo at ho
      split at ho
      · simp at ho
      · rename_i outcome s' hnext
        have hadvance := next?_eq_some hnext
        rcases List.mem_cons.mp ho with rfl | ho
        · exact ⟨s.look 1, look_between hs, rfl, by rw [hadvance]⟩
        · have hs' : s'.Between := by
            have hbetween := advance_between (look_between hs)
            rw [hadvance] at hbetween
            exact hbetween
          have hentries : s'.entries = s.entries := by
            obtain ⟨es, hwalk⟩ := (s.look 1).advance_walk
            rw [hadvance] at hwalk
            exact hwalk.entries_eq
          obtain ⟨t, ht, htentries, htadvance⟩ := ih hs' ho
          exact ⟨t, ht, htentries.trans hentries, htadvance⟩

/-- A statement that is clean in spite of an error in its tokens begins with the
error. -/
theorem outcomes_malformedAtStart (limit : Nat) (source : String) {o : ParseOutcome}
    (ho : o ∈ (ParseState.ofText limit source).outcomes.1)
    (hsuccess : o.success = true) {st : Stmt} (hst : o.statement = some st) :
    st.MalformedAtStart (Lexed.ofText limit source) := by
  obtain ⟨hstands, hordered⟩ := Lexed.ofText_ordered limit source
  have hbetween : (ParseState.ofText limit source).Between := ofEntries_between _
  obtain ⟨s, hs, hentries, rfl⟩ := exists_advance_of_mem_outcomesUpTo hbetween ho
  exact advance_malformedAtStart hstands hordered hs hentries hsuccess hst

end ParseState

/-- In every outcome of a text that counts as cleanly parsed, and so in every
statement that a run of the text evaluates, a malformed token stands inside the
statement exactly if it is the one that the statement starts with. -/
theorem malformed_within_iff_start (limit : Nat) (source : String) :
    (∀ o ∈ (ParseState.ofText limit source).outcomes.1, o.success = true → ∀ st,
      o.statement = some st →
      st.MalformedAtStart (Lexed.ofText limit source)) ∧
    ∀ fuel (i : Interpreter), ∃ ran : List Stmt,
      (∀ st ∈ ran, st.MalformedAtStart (Lexed.ofText limit source)) ∧
        (i.runScript fuel (ParseState.ofText limit source)).interpreter =
          ran.foldl (fun i st => (i.run fuel st).2) i := by
  refine ⟨fun o ho hsuccess st hst => ParseState.outcomes_malformedAtStart limit
    source ho hsuccess hst, ?_⟩
  intro fuel i
  obtain ⟨ran, hran, heq⟩ := Interpreter.runUpTo_ran fuel
    ((ParseState.ofText limit source).rest.length + 1)
    { interpreter := i, parser := ParseState.ofText limit source }
  refine ⟨ran, fun st hst => ?_, heq⟩
  exact ParseState.outcomes_malformedAtStart limit source (hran st hst) rfl rfl

/-- The number of `0x;` has no digits, and yet the statement counts as cleanly
parsed. -/
theorem malformed_start_counts_as_clean :
    ∃ o ∈ (ParseState.ofText 4096 "0x;").outcomes.1, o.success = true ∧
      ∃ st, o.statement = some st ∧
        ∃ l ∈ Lexed.ofText 4096 "0x;", l.notes.error ≠ none ∧
          l.token.span.Within st.span := by
  have hstart : ∃ o ∈ (ParseState.ofText 4096 "0x;").outcomes.1, o.success = true ∧
      ∃ st ∈ o.statement, ∃ l ∈ Lexed.ofText 4096 "0x;", l.notes.error ≠ none ∧
        l.token.span.start = st.span.start := by decide +kernel
  obtain ⟨o, ho, hsuccess, st, hst, l, hl, herror, hat⟩ := hstart
  refine ⟨o, ho, hsuccess, st, hst, l, hl, herror, ?_⟩
  exact ((malformed_within_iff_start 4096 "0x;").1 o ho hsuccess st hst l hl
    herror).mpr hat

end ScriptLang
