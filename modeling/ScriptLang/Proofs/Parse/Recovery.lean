import ScriptLang.Proofs.Eval.Runs
import ScriptLang.Proofs.Parse.Concatenation
import ScriptLang.Proofs.Tree.Nesting

/-!
# Where parsing goes on after an error

A step that fails stops where it can go no further, and the next step starts there.
Nothing looks for the end of the statement that failed, so the next step may well
start inside its brackets.

A step that succeeds takes the tokens of a statement, in which every bracket that is
opened is closed.  So the brackets around a statement that was parsed cleanly are
those that were open where the last failed step before it had stopped, and there are
none if no step failed.
-/

namespace ScriptLang

namespace ParseState

variable {s s' t : ParseState} {o : ParseOutcome} {os : List ParseOutcome}

/-- The brackets that are open behind the tokens taken so far. -/
def opened (s : ParseState) : Option (List Bracket) :=
  Lexeme.nesting [] ((s.entries.take s.taken).map fun e => e.token.lexeme)

/-- Between two tokens, some have been taken and the others are left. -/
theorem Between.take_append (hs : s.Between) :
    s.entries.take s.taken ++ s.rest = s.entries := by
  obtain ⟨before, hentries, htaken, _⟩ := hs.split
  rw [hentries, htaken, List.take_left]

/-- A walk nests as the tokens do that it takes. -/
theorem Between.opened_walk {es : List Entry} (hs : s.Between) (h : s.Walk es s') :
    s'.opened = s.opened.bind fun opened =>
      Lexeme.nesting opened (es.map fun e => e.token.lexeme) := by
  obtain ⟨before, hentries, htaken, _⟩ := hs.split
  have hbefore : s.entries.take s.taken = before := by
    rw [hentries, htaken, List.take_left]
  have htaken' : s'.entries.take s'.taken = before ++ es := by
    rw [h.entries_eq, hentries, h.rest_eq, h.taken_eq,
      htaken, ← List.append_assoc, ← List.length_append, List.take_left]
  unfold opened
  rw [htaken', hbefore, List.map_append, Lexeme.nesting_append]

/-- In a text with balanced brackets no bracket is closed that was not open. -/
theorem Between.exists_opened (hs : s.Between)
    (hbalanced : Lexeme.Balanced (s.entries.map fun e => e.token.lexeme)) :
    ∃ opened, s.opened = some opened := by
  unfold Lexeme.Balanced at hbalanced
  rw [← hs.take_append, List.map_append, Lexeme.nesting_append] at hbalanced
  obtain ⟨opened, hopened, _⟩ := Option.bind_eq_some_iff.mp hbalanced
  exact ⟨opened, hopened⟩

/-! ## Steps that succeed -/

/-- A step that succeeds takes the tokens of a statement, which starts with the
first of them. -/
theorem advance_clean (hend : s.atEnd = false)
    (hsuccess : s.advance.1.success = true) :
    ∃ st es, s.advance.1.statement = some st ∧ s.Walk es s.advance.2 ∧
      es.map (fun e => e.token.lexeme) = st.write ∧
        st.span.start = s.token.span.start := by
  have hsome : s.advance.1.statement.isSome = true := by
    rw [advance_of_not_atEnd hend] at hsuccess ⊢
    exact (Bool.and_eq_true_iff.mp hsuccess).1
  obtain ⟨st, hst⟩ := Option.isSome_iff_exists.mp hsome
  obtain ⟨_, hrun, hcount⟩ := advance_statement hst
  obtain ⟨es, hwalk, hvalue⟩ := Parse.statement_writesAt (s.look 1)
  rw [hrun] at hwalk hvalue
  replace hwalk : (s.look 1).Walk es s.advance.2 := hwalk
  -- No error was counted, so none was raised, and the tokens taken are those of the
  -- statement.
  rw [hcount] at hsuccess
  obtain ⟨herrors, _⟩ := hwalk.of_errorCount_eq (eq_of_beq hsuccess)
  obtain ⟨st', hst', hspells⟩ := hvalue herrors
  cases hst'
  have hspan := Parse.statement_span ((Parse.statement_eq _).symm.trans hrun)
  refine ⟨st, es, hst, (Walk.look s).trans hwalk, hspells.write_eq.symm, ?_⟩
  rw [hspan]
  rfl

/-- A step that succeeds leaves the brackets that are open as they are. -/
theorem advance_opened (hs : s.Between) (hend : s.atEnd = false)
    (hsuccess : s.advance.1.success = true) :
    s.advance.2.opened = s.opened := by
  obtain ⟨st, es, _, hwalk, hwrite, _⟩ := advance_clean hend hsuccess
  rw [hs.opened_walk hwalk, hwrite]
  cases s.opened with
  | none => rfl
  | some opened => exact (Stmt.write_balanced st).nesting_eq opened

/-! ## Some steps further -/

/-- The state after some steps. -/
def after : Nat → ParseState → ParseState
  | 0, s => s
  | n + 1, s => s.advance.2.after n

/-- One outcome more. -/
theorem after_succ (n : Nat) (s : ParseState) :
    s.after (n + 1) = (s.after n).advance.2 := by
  induction n generalizing s with
  | zero => rfl
  | succ n ih => exact ih s.advance.2

/-- After any number of outcomes, a parse stands between two tokens. -/
theorem after_between (hs : s.Between) (n : Nat) : (s.after n).Between := by
  induction n with
  | zero => exact hs
  | succ n ih =>
      rw [after_succ]
      exact advance_between ih

/-- A parse does not change the tokens that it was given. -/
theorem after_entries (s : ParseState) (n : Nat) :
    (s.after n).entries = s.entries := by
  induction n with
  | zero => rfl
  | succ n ih =>
      obtain ⟨es, hwalk⟩ := (s.after n).advance_walk
      rw [after_succ, hwalk.entries_eq, ih]

/-- An outcome is that of the step that follows the ones before it. -/
theorem Yields.advance_after (h : s.Yields os t) {n : Nat} (ho : os[n]? = some o) :
    (s.after n).atEnd = false ∧ (s.after n).advance.1 = o := by
  induction h generalizing n with
  | refl => cases ho
  | @step s t os hend _ ih =>
      cases n with
      | zero => exact ⟨hend, Option.some.inj ho⟩
      | succ n => exact ih ho

/-- Each outcome comes from a statement before the end of the text. -/
theorem advance_after {n : Nat} (ho : s.outcomes.1[n]? = some o) :
    (s.after n).atEnd = false ∧ (s.after n).advance.1 = o := by
  obtain ⟨t, hyields, _⟩ := s.outcomes_yields
  exact hyields.advance_after ho

/-- As long as the steps succeed, the same brackets are open. -/
theorem after_opened (hs : s.Between) {k n : Nat} (hkn : k ≤ n)
    (hn : n ≤ s.outcomes.1.length)
    (hsuccess : ∀ j, k ≤ j → j < n → ∀ o, s.outcomes.1[j]? = some o →
      o.success = true) :
    (s.after n).opened = (s.after k).opened := by
  induction n with
  | zero =>
      obtain rfl : k = 0 := by omega
      rfl
  | succ n ih =>
      by_cases heq : k = n + 1
      · rw [heq]
      · obtain ⟨hend, hadvance⟩ :=
          advance_after (List.getElem?_eq_getElem (Nat.lt_of_succ_le hn))
        have hclean : (s.after n).advance.1.success = true := by
          rw [hadvance]
          exact hsuccess n (by omega) (by omega)
            _ (List.getElem?_eq_getElem (Nat.lt_of_succ_le hn))
        rw [after_succ, advance_opened (after_between hs n) hend hclean]
        apply ih (by omega) (by omega)
        intro j hkj hjn
        exact hsuccess j hkj (by omega)

/-! ## Statements that are run -/

/-- At the beginning of a text no bracket is open. -/
theorem ofText_opened (limit : Nat) (source : String) :
    (ofText limit source).opened = some [] := rfl

/-- In a text with balanced brackets, a step that succeeds yields a statement that
starts with the first token of the step and takes a balanced stretch of tokens.  The
brackets that are open where it starts are those that were open where an earlier
step stopped, if all steps since have succeeded, and so where the last failed step
stopped; there are none if all steps before have succeeded.  The statements that a
run of the text evaluates are those of such steps. -/
theorem clean_statement_opened (limit : Nat) (source : String)
    (hbalanced : Lexeme.Balanced
      ((Entry.ofText limit source).map fun e => e.token.lexeme)) :
    let start := ofText limit source
    let outcomes := start.outcomes.1
    (∀ n o, outcomes[n]? = some o → o.success = true →
      ∃ st es opened, o.statement = some st ∧
        st.span.start = (start.after n).token.span.start ∧
        (start.after n).rest = es ++ (start.after (n + 1)).rest ∧
        Lexeme.Balanced (es.map fun e => e.token.lexeme) ∧
        (start.after n).opened = some opened ∧
        ((∀ j o', j < n → outcomes[j]? = some o' → o'.success = true) →
          opened = []) ∧
        ∀ k < n, (∀ j o', k < j → j < n → outcomes[j]? = some o' →
          o'.success = true) →
          (start.after (k + 1)).opened = some opened) ∧
    ∀ (fuel : Nat) (i : Interpreter), ∃ ran : List Stmt,
      (i.runScript fuel start).interpreter =
        ran.foldl (fun i st => (i.run fuel st).2) i ∧
        ∀ st ∈ ran, ∃ n : Nat, outcomes[n]? = some ⟨some st, true⟩ := by
  intro start outcomes
  have hstart : start.Between := ofEntries_between _
  constructor
  · intro n o ho hsuccess
    obtain ⟨hend, hadvance⟩ := advance_after ho
    have hlength : n ≤ outcomes.length :=
      Nat.le_of_lt (List.getElem?_eq_some_iff.mp ho).1
    rw [← hadvance] at hsuccess
    obtain ⟨st, es, hst, hwalk, hwrite, hspan⟩ := advance_clean hend hsuccess
    obtain ⟨opened, hopened⟩ : ∃ opened, (start.after n).opened = some opened := by
      apply (after_between hstart n).exists_opened
      rw [after_entries]
      exact hbalanced
    refine ⟨st, es, opened, hadvance ▸ hst, hspan, ?_, hwrite ▸ st.write_balanced,
      hopened, ?_, ?_⟩
    · rw [after_succ]
      exact hwalk.rest_eq
    · intro hclean
      have hsame := after_opened hstart (Nat.zero_le n) hlength fun j _ hj o' =>
        hclean j o' hj
      rw [hopened] at hsame
      exact Option.some.inj (hsame.trans (ofText_opened limit source))
    · intro k hk hclean
      have hsame := after_opened hstart hk hlength fun j hkj hj o' =>
        hclean j o' hkj hj
      rw [← hsame, hopened]
  · intro fuel i
    obtain ⟨ran, hran, hrun⟩ :=
      Interpreter.runUpTo_ran fuel (start.rest.length + 1) ⟨i, start, {}, true⟩
    refine ⟨ran, hrun, ?_⟩
    intro st hst
    exact List.mem_iff_getElem?.mp (hran st hst)

/-- The text `(1 + , print(2); 3);`, with a statement that fails inside of its
parentheses. -/
def brokenGrouping : String := "(1 + , print(2); 3);"

/-- The brackets of this text are balanced.  Its first statement fails at the comma,
and two further steps yield the call of `print` and the 3 that are left inside the
parentheses.  A run prints the 2. -/
theorem brokenGrouping_runs_fragment :
    let start := ofText 4096 brokenGrouping
    let i :=
      (Registry.installFunctions [⟨"print", none, Host.print⟩]
        (Interpreter.new {})).2
    Lexeme.Balanced ((Entry.ofText 4096 brokenGrouping).map fun e =>
      e.token.lexeme) ∧
      start.outcomes.1.map (·.success) = [false, false, true, true, false, false] ∧
      (start.after 2).opened = some [.paren] ∧
        (start.after 3).opened = some [.paren] ∧
      (i.runScript 8 start).interpreter.machine.console.written = "2\n" := by
  decide +kernel

/-- Where the comma was skipped the parenthesis is open, and so it is where the 3
starts. -/
theorem brokenGrouping_opened :
    let start := ofText 4096 brokenGrouping
    (start.after 2).opened = some [.paren] ∧
      ∃ st es, start.outcomes.1[3]? = some ⟨some st, true⟩ ∧
      (start.after 3).rest = es ++ (start.after 4).rest ∧
      Lexeme.Balanced (es.map fun e => e.token.lexeme) ∧
        (start.after 3).opened = some [.paren] := by
  intro start
  have hopened : (start.after 2).opened = some [.paren] := by decide +kernel
  have hsuccess : (start.outcomes.1[3]?.map (·.success)) = some true := by
    decide +kernel
  have hsince : ∀ j : Nat, 1 < j → j < 3 →
      (start.outcomes.1[j]?.map (·.success)) = some true := by
    intro j hj hj'
    obtain rfl : j = 2 := by omega
    decide +kernel
  obtain ⟨⟨statement, success⟩, ho, rfl⟩ := Option.map_eq_some_iff.mp hsuccess
  obtain ⟨st, es, opened, rfl, _, hrest, hbalanced, hn, _, hfailed⟩ :=
    (clean_statement_opened 4096 brokenGrouping (by decide +kernel)).1 3 _ ho rfl
  have hsame := hfailed 1 (by decide) fun j o' hj hj' ho' => by
    have hmap := hsince j hj hj'
    rw [ho'] at hmap
    exact Option.some.inj hmap
  rw [hopened] at hsame
  exact ⟨hopened, st, es, ho, hrest, hbalanced, hn.trans hsame.symm⟩

end ParseState

end ScriptLang
