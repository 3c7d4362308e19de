import ScriptLang.Command
import ScriptLang.Proofs.Eval.Pieces

/-!
# Every failure is counted and reported

A run pulls outcomes from the parser, one after the other, and each of them has one
of three fates: its statement is run to a value, fails while it is run, or is
skipped.  The counts of a run are those of the fates, and every statement that fails
leaves one fault, at the place where the statement starts
(`Interpreter.run_accounts`).

No statement is skipped without an error: a step that yields no statement has raised
one, and one that yields a statement but no success has counted one.  So the report
on a run in which a statement failed or was skipped is never a success.
-/

namespace ScriptLang

/-! ## Errors of steps -/

/-- Skipped statements are counted one by one. -/
theorem Command.skippedCount_cons (o : ParseOutcome) (os : List ParseOutcome) :
    skippedCount (o :: os) = skippedCount [o] + skippedCount os := by
  rw [← List.singleton_append]
  exact List.countP_append

namespace ParseState

variable {s s' t : ParseState} {os : List ParseOutcome}

/-- Notes and errors are only added. -/
theorem Walk.errorCount_le {es : List Entry} (h : s.Walk es s') :
    s.errorCount ≤ s'.errorCount := by
  obtain ⟨looked, hlooked⟩ := List.take_prefix_take_left (l := s.entries) h.seen_le
  have hnotes : s'.notes = s.notes ++ looked.flatMap Entry.notes := by
    rw [notes, h.entries_eq, ← hlooked, List.flatMap_append]
    rfl
  have herrors := h.errors_le
  unfold errorCount lexicalErrors
  rw [hnotes, List.filterMap_append, List.length_append]
  omega

/-- A step that yields no statement has raised an error, unless there was nothing
left. -/
theorem advance_raises (hend : s.atEnd = false)
    (hnone : s.advance.1.statement = none) :
    s.errors.size < s.advance.2.errors.size := by
  rw [advance_of_not_atEnd hend] at hnone ⊢
  obtain ⟨es, hwalk, hvalue⟩ := Parse.statement_writesAt (s.look 1)
  have hle : s.errors.size ≤ (Parse.statement (s.look 1)).2.errors.size :=
    hwalk.errors_le
  have hne : (Parse.statement (s.look 1)).2.errors.size ≠ s.errors.size := by
    intro heq
    obtain ⟨st, hst, _⟩ := hvalue heq
    rw [hst] at hnone
    cases hnone
  have hbehind := (statement_leads_behind s).errors_le
  exact Nat.lt_of_lt_of_le (Nat.lt_of_le_of_ne hle hne.symm) hbehind

/-- A step whose outcome is not to be run has counted an error. -/
theorem advance_errorCount_lt (hend : s.atEnd = false)
    (hskip : (s.advance.1.statement.isNone || !s.advance.1.success) = true) :
    s.errorCount < s.advance.2.errorCount := by
  obtain ⟨es, hwalk⟩ := s.advance_walk
  have hle := hwalk.errorCount_le
  refine Nat.lt_of_le_of_ne hle fun heq => ?_
  cases hst : s.advance.1.statement with
  | none =>
      have hraises := advance_raises hend hst
      obtain ⟨herrors, _⟩ := hwalk.of_errorCount_eq heq.symm
      omega
  | some st =>
      obtain ⟨_, hrun, hcount⟩ := advance_statement hst
      obtain ⟨fs, hstatement, _⟩ := Parse.statement_writesAt (s.look 1)
      rw [hrun] at hstatement
      have hfirst := (Walk.look s).errorCount_le
      have hsecond : (s.look 1).errorCount ≤ s.advance.2.errorCount :=
        hstatement.errorCount_le
      have hsame : s.advance.2.errorCount = (s.look 1).errorCount := by omega
      rw [hst, hcount, hsame] at hskip
      simp at hskip

/-- Every outcome that is skipped has an error of its own. -/
theorem advance_errorCount_le (hend : s.atEnd = false) :
    s.errorCount + Command.skippedCount [s.advance.1] ≤ s.advance.2.errorCount := by
  unfold Command.skippedCount
  rw [List.countP_singleton]
  split
  · rename_i hskip
    exact advance_errorCount_lt hend hskip
  · obtain ⟨es, hwalk⟩ := s.advance_walk
    exact hwalk.errorCount_le

/-- Each statement that is skipped has raised an error of its own. -/
theorem Yields.errorCount_le (h : s.Yields os t) :
    s.errorCount + Command.skippedCount os ≤ t.errorCount := by
  induction h with
  | refl => exact Nat.le_refl _
  | @step s t os hend _ ih =>
      have hstep := advance_errorCount_le hend
      rw [Command.skippedCount_cons]
      omega

end ParseState

/-! ## Fates of outcomes -/

/-- A statement that failed while it was run, and why. -/
structure Failure where
  statement : Stmt
  fault : Fault

/-- A fault, at the start of the statement that failed. -/
def Failure.located (f : Failure) : Located Fault :=
  ⟨f.fault, f.statement.span.start⟩

/-- What a statement that is run leaves behind: a fault if it fails, and nothing
otherwise. -/
theorem Interpreter.run_faults (fuel : Nat) (st : Stmt) (i : Interpreter) :
    (i.run fuel st).2.faults =
        match (i.run fuel st).1 with
        | .failed located => i.faults.push located
        | _ => i.faults := by
  unfold run
  dsimp only
  split <;> rfl

/-- A fault has the place of its statement. -/
theorem Interpreter.run_position {fuel : Nat} {st : Stmt} {i : Interpreter}
    {located : Located Fault} (h : (i.run fuel st).1 = .failed located) :
    located.position = st.span.start := by
  unfold run at h
  dsimp only at h
  split at h <;> cases h <;> rfl

namespace Tally

variable {fuel : Nat} {t u : Tally} {o : ParseOutcome} {os : List ParseOutcome}

/-- The failure of the statement of an outcome, if it is run and fails. -/
def failure? (fuel : Nat) (t : Tally) : ParseOutcome → Option Failure
  | ⟨some st, true⟩ =>
    match (t.interpreter.run fuel st).1 with
    | .failed located => some ⟨st, located.what⟩
    | _ => none
  | _ => none

/-- The statements that fail when some outcomes are run, in order. -/
def failures (fuel : Nat) : Tally → List ParseOutcome → List Failure
  | _, [] => []
  | t, o :: os => (t.failure? fuel o).toList ++ (t.step fuel o).failures fuel os

/-- Steps through outcomes, before none of which the run had ended. -/
inductive Takes (fuel : Nat) : Tally → List ParseOutcome → Tally → Prop
  | refl (t : Tally) : Takes fuel t [] t
  | step {t u : Tally} {o : ParseOutcome} {os : List ParseOutcome} :
      t.ended = false → Takes fuel (t.step fuel o) os u → Takes fuel t (o :: os) u

/-- The number of outcomes that have been looked at: those that are counted, and one
that was given up. -/
def total (t : Tally) : Nat :=
  t.stats.run + t.stats.failed + t.stats.skipped + (!t.complete).toNat

/-- What some outcomes add to a run. -/
structure Accounts (fuel : Nat) (t : Tally) (os : List ParseOutcome)
    (u : Tally) : Prop where
  total_eq : u.total = t.total + os.length
  failed_eq : u.stats.failed = t.stats.failed + (t.failures fuel os).length
  skipped_eq : u.stats.skipped = t.stats.skipped + Command.skippedCount os
  faults_eq : u.interpreter.faults.toList =
    t.interpreter.faults.toList ++ (t.failures fuel os).map Failure.located

/-- Only a quit or a fault that ends the run leaves it incomplete. -/
theorem complete_of_not_ended (h : t.ended = false) : t.complete = true := by
  simpa using (Bool.or_eq_false_iff.mp h).2

/-- An outcome that is counted once, as failed exactly if it leaves a fault. -/
theorem accounts_counted {i : Interpreter} {gained : Stats}
    (hone : gained.run + gained.failed + gained.skipped = 1)
    (hfailed : gained.failed = (t.failures fuel [o]).length)
    (hskipped : gained.skipped = Command.skippedCount [o])
    (hfaults : i.faults.toList = t.interpreter.faults.toList ++
      (t.failures fuel [o]).map Failure.located) :
    t.Accounts fuel [o] { t with interpreter := i, stats := t.stats + gained } where
  total_eq := by
    simp only [total, Stats.add_def, List.length_singleton]
    omega
  failed_eq := by rw [← hfailed, Stats.add_def]
  skipped_eq := by rw [← hskipped, Stats.add_def]
  faults_eq := hfaults

/-- An outcome without a statement that parsed cleanly is skipped. -/
theorem accounts_skipped (ho : ∀ st, o ≠ ⟨some st, true⟩) :
    t.Accounts fuel [o] { t with stats := t.stats + { skipped := 1 } } := by
  have hfailures : t.failures fuel [o] = [] := by
    unfold failures failure?
    split
    · exact absurd rfl (ho _)
    · rfl
  have hskipped : Command.skippedCount [o] = 1 := by
    rcases o with ⟨_ | st, _ | _⟩
    · rfl
    · rfl
    · rfl
    · exact absurd rfl (ho st)
  apply accounts_counted rfl
  · rw [hfailures, List.length_nil]
  · rw [hskipped]
  · rw [hfailures, List.map_nil, List.append_nil]

/-- A statement that is run comes to a value, or fails and leaves a fault, or is
given up. -/
theorem accounts_run (h : t.ended = false) (st : Stmt) :
    t.Accounts fuel [⟨some st, true⟩] (t.step fuel ⟨some st, true⟩) := by
  have hfaults := Interpreter.run_faults fuel st t.interpreter
  have hskipped : Command.skippedCount [⟨some st, true⟩] = 0 := rfl
  rw [step_of_clean h]
  cases hresult : (t.interpreter.run fuel st).1 with
  | value v =>
      rw [hresult] at hfaults
      have hfailures : t.failures fuel [⟨some st, true⟩] = [] := by
        simp [failures, failure?, hresult]
      apply accounts_counted rfl
      · rw [hfailures, List.length_nil]
      · rw [hskipped]
      · rw [hfaults, hfailures, List.map_nil, List.append_nil]
  | failed located =>
      rw [hresult] at hfaults
      have hfailures : t.failures fuel [⟨some st, true⟩] =
          [⟨st, located.what⟩] := by
        simp [failures, failure?, hresult]
      apply accounts_counted rfl
      · rw [hfailures, List.length_singleton]
      · rw [hskipped]
      · rw [hfaults, hfailures, Array.toList_push, List.map_singleton,
          Failure.located, ← Interpreter.run_position hresult]
  | exhausted =>
      rw [hresult] at hfaults
      have hcomplete := complete_of_not_ended h
      have hfailures : t.failures fuel [⟨some st, true⟩] = [] := by
        simp [failures, failure?, hresult]
      refine ⟨?_, ?_, ?_, ?_⟩
      · simp [RunResult.stats?, total, hcomplete]
      · simp [RunResult.stats?, hfailures]
      · simp [RunResult.stats?, hskipped]
      · simp [RunResult.stats?, hfailures, hfaults]

/-- Every outcome is counted once. -/
theorem step_accounts (fuel : Nat) (h : t.ended = false) (o : ParseOutcome) :
    t.Accounts fuel [o] (t.step fuel o) := by
  by_cases ho : ∃ st, o = ⟨some st, true⟩
  · obtain ⟨st, rfl⟩ := ho
    exact accounts_run h st
  · have hskip : ∀ st, o ≠ ⟨some st, true⟩ := fun st hst => ho ⟨st, hst⟩
    rw [step_of_skipped h hskip]
    exact accounts_skipped hskip

/-- A run that has not ended has taken all outcomes. -/
theorem takes_of_not_ended (h : (os.foldl (step fuel) t).ended = false) :
    Takes fuel t os (os.foldl (step fuel) t) := by
  induction os generalizing t with
  | nil => exact .refl t
  | cons o os ih =>
      have hgoes : t.ended = false := by
        by_contra hended
        rw [foldl_of_ended (by simpa using hended)] at h
        exact hended h
      exact .step hgoes (ih h)

/-- What a run takes from a parse is accounted for. -/
theorem Takes.accounts (h : Takes fuel t os u) : t.Accounts fuel os u := by
  induction h with
  | refl t => exact ⟨rfl, rfl, rfl, (List.append_nil _).symm⟩
  | @step t u o os hgoes _ ih =>
      obtain ⟨htotal, hfailed, hskipped, hfaults⟩ := step_accounts fuel hgoes o
      have hone : t.failures fuel [o] = (t.failure? fuel o).toList :=
        List.append_nil _
      rw [hone] at hfailed hfaults
      refine ⟨?_, ?_, ?_, ?_⟩
      · rw [ih.total_eq, htotal, List.length_singleton, List.length_cons]
        omega
      · rw [ih.failed_eq, hfailed, failures, List.length_append, Nat.add_assoc]
      · rw [ih.skipped_eq, hskipped, Command.skippedCount_cons o os, Nat.add_assoc]
      · rw [ih.faults_eq, hfaults, failures, List.map_append, List.append_assoc]

end Tally

/-! ## Runs -/

namespace Interpreter

/-- One turn of a run. -/
theorem runUpTo_turn {s : ParseState} {i : Interpreter}
    (hquit : i.shouldQuit = false) (hend : s.atEnd = false) (fuel count : Nat)
    (stats : Stats) :
    let next := Tally.step fuel ⟨i, stats, true⟩ s.advance.1
    runUpTo fuel (count + 1) ⟨i, s, stats, true⟩ =
      if next.complete then
        runUpTo fuel count ⟨next.interpreter, s.advance.2, next.stats, true⟩
      else ⟨next.interpreter, s.advance.2, next.stats, false⟩ := by
  have hgoes : Tally.ended ⟨i, stats, true⟩ = false := by simp [Tally.ended, hquit]
  simp only [runUpTo, hquit, ParseState.next?_of_not_atEnd hend,
    Bool.false_eq_true, ↓reduceIte]
  rcases s.advance.1 with ⟨_ | st, _ | _⟩
  · rw [Tally.step_of_skipped hgoes (by simp)]
    rfl
  · rw [Tally.step_of_skipped hgoes (by simp)]
    rfl
  · rw [Tally.step_of_skipped hgoes (by simp)]
    rfl
  · rw [Tally.step_of_clean hgoes]
    dsimp only
    rcases hrun : i.run fuel st with ⟨v | fault | _, i'⟩ <;> rfl

/-- A run pulls outcomes until it has ended or there are no more of them. -/
theorem runUpTo_takes {s : ParseState} {count : Nat}
    (hcount : s.rest.length < count) (fuel : Nat) (i : Interpreter)
    (stats : Stats) :
    let ran := runUpTo fuel count ⟨i, s, stats, true⟩
    ∃ pulled t, s.Yields pulled t ∧
      Tally.Takes fuel ⟨i, stats, true⟩ pulled ran.tally ∧
      (ran.tally.ended = true ∧ ran.parser = t ∨ t.atEnd = true ∧
        ran.parser = t.look 1) := by
  induction count generalizing s i stats with
  | zero => exact absurd hcount (Nat.not_lt_zero _)
  | succ count ih =>
      intro ran
      by_cases hquit : i.shouldQuit = true
      · have hran : ran = ⟨i, s, stats, true⟩ := by
          simp only [ran, runUpTo, if_pos hquit]
        rw [hran]
        exact ⟨[], s, .refl s, .refl _,
          .inl ⟨by simp [Tally.ended, Progress.tally, hquit], rfl⟩⟩
      · replace hquit : i.shouldQuit = false := by simpa using hquit
        have hgoes : Tally.ended ⟨i, stats, true⟩ = false := by
          simp [Tally.ended, hquit]
        cases hend : s.atEnd with
        | true =>
            have hran : ran = ⟨i, s.look 1, stats, true⟩ := by
              simp [ran, runUpTo, hquit, ParseState.next?_of_atEnd hend]
            rw [hran]
            exact ⟨[], s, .refl s, .refl _, .inr ⟨hend, rfl⟩⟩
        | false =>
            have hless := ParseState.advance_length_lt hend
            have hran := runUpTo_turn hquit hend fuel count stats
            generalize hnext : Tally.step fuel ⟨i, stats, true⟩ s.advance.1 =
              next at hran
            obtain ⟨i', stats', complete⟩ := next
            cases complete with
            | false =>
                have hgaveUp : ran = ⟨i', s.advance.2, stats', false⟩ := hran
                rw [hgaveUp]
                refine ⟨[s.advance.1], s.advance.2, .step hend (.refl _),
                  .step hgoes ?_, .inl ⟨?_, rfl⟩⟩
                · rw [hnext]
                  exact .refl _
                · simp [Tally.ended, Progress.tally]
            | true =>
                have hwent : ran = runUpTo fuel count
                  ⟨i', s.advance.2, stats', true⟩ := hran
                obtain ⟨pulled, t, hyields, htakes, hstop⟩ :=
                  ih (s := s.advance.2) (by omega) i' stats'
                rw [hwent]
                refine ⟨s.advance.1 :: pulled, t, .step hend hyields,
                  .step hgoes ?_, hstop⟩
                rw [hnext]
                exact htakes

/-- A run takes the outcomes of its parse one by one. -/
theorem runScript_takes (fuel : Nat) (s : ParseState) (i : Interpreter) :
    let ran := i.runScript fuel s
    ∃ pulled t, s.Yields pulled t ∧
      Tally.Takes fuel { interpreter := i } pulled ran.tally ∧
      (ran.tally.ended = true ∧ ran.parser = t ∨ t.atEnd = true ∧
        ran.parser = t.look 1) :=
  runUpTo_takes (Nat.lt_succ_self _) fuel i {}

/-- A run leaves the parser with an error for every statement it skipped. -/
theorem runScript_errorCount (fuel : Nat) (s : ParseState) (i : Interpreter) :
    (i.runScript fuel s).stats.skipped ≤
      (i.runScript fuel s).parser.errorCount := by
  obtain ⟨pulled, t, hyields, htakes, hstop⟩ := runScript_takes fuel s i
  have hskipped : (i.runScript fuel s).stats.skipped =
      Command.skippedCount pulled :=
    htakes.accounts.skipped_eq.trans (Nat.zero_add _)
  have herrors := hyields.errorCount_le
  rcases hstop with ⟨_, hparser⟩ | ⟨_, hparser⟩
  · rw [hparser]
    omega
  · have hlook := (ParseState.Walk.look t).errorCount_le
    rw [hparser]
    omega

end Interpreter

/-! ## Reports -/

/-- A report with an error is no success. -/
theorem Report.success_eq_false {file : String} {diagnostics : List Diagnostic}
    {stats : Stats} {d : Diagnostic} (hd : d ∈ diagnostics)
    (herror : d.severity = .error) :
    (of file diagnostics stats).success = false := by
  have hmem := (diagnostics_of_perm file diagnostics stats).mem_iff.mpr hd
  rw [success_of]
  exact List.all_eq_false.mpr ⟨d, hmem, by simp [herror]⟩

/-- The report of a parse in which an error was counted holds an error. -/
theorem Diagnostic.exists_error_ofParse {s : ParseState} (h : 0 < s.errorCount) :
    ∃ d ∈ ofParse s, d.severity = .error := by
  by_cases hlexical : s.lexicalErrors = []
  · have hsize : 0 < s.errors.toList.length := by
      simpa [ParseState.errorCount, hlexical] using h
    obtain ⟨e, he⟩ := List.exists_mem_of_length_pos hsize
    refine ⟨ofParseError e, ?_, rfl⟩
    simp only [ofParse, List.mem_append]
    exact .inl (.inr (List.mem_map_of_mem he))
  · obtain ⟨e, he⟩ := List.exists_mem_of_ne_nil _ hlexical
    refine ⟨ofLexicalError e, ?_, rfl⟩
    simp only [ofParse, List.mem_append]
    exact .inl (.inl (.inl (List.mem_map_of_mem he)))

namespace Interpreter

/-- The outcomes that a run pulls from the parser, which are those of the steps to
where it leaves the parser, are counted once each, as run, as failed or as skipped,
apart from a statement that needs more steps than allowed, with which the run is
given up.  Every statement that fails adds one fault, at its start, in the order of
the statements, and nothing else adds one.  A report with the diagnostics of the
parse and these faults, or all faults of the interpreter, is no success if a
statement failed or was skipped, and if it is one then it holds no error.

A step through a text that yields no statement has raised an error, unless only the
end of the text was left. -/
theorem run_accounts (fuel : Nat) (i : Interpreter) (s : ParseState)
    (file : String) :
    let ran := i.runScript fuel s
    (∃ pulled t, s.Yields pulled t ∧
      (ran.parser = t ∨ t.atEnd = true ∧ ran.parser = t.look 1) ∧
      let failures := Tally.failures fuel { interpreter := i } pulled
      ran.stats.run + ran.stats.failed + ran.stats.skipped + (!ran.complete).toNat =
        pulled.length ∧
        ran.interpreter.faults.toList = i.faults.toList ++
          failures.map Failure.located ∧
        failures.length = ran.stats.failed ∧
        ∀ faults ∈ [failures.map Failure.located, ran.interpreter.faults.toList],
          let report :=
            Report.of file (Diagnostic.ofParse ran.parser ++
              faults.map Diagnostic.ofFault) ran.stats
          (0 < ran.stats.failed ∨ 0 < ran.stats.skipped → report.success = false) ∧
            (report.success = true → ∀ d ∈ report.diagnostics,
              d.severity ≠ .error)) ∧
      ∀ s' : ParseState, s'.atEnd = false → s'.advance.1.statement = none →
        s'.errors.size < s'.advance.2.errors.size := by
  intro ran
  refine ⟨?_, fun s' hend hnone => ParseState.advance_raises hend hnone⟩
  obtain ⟨pulled, t, hyields, htakes, hstop⟩ := runScript_takes fuel s i
  obtain ⟨htotal, hfailed, _, hfaults⟩ := htakes.accounts
  have hcount : ran.stats.run + ran.stats.failed + ran.stats.skipped +
    (!ran.complete).toNat =
      pulled.length := htotal.trans (Nat.zero_add _)
  have hlength : ran.stats.failed =
      (Tally.failures fuel { interpreter := i } pulled).length :=
    hfailed.trans (Nat.zero_add _)
  refine ⟨pulled, t, hyields, hstop.imp And.right id, hcount, hfaults,
    hlength.symm, ?_⟩
  intro faults hmem report
  constructor
  · intro hfate
    rcases hfate with hfate | hfate
    · rw [hlength] at hfate
      obtain ⟨f, hf⟩ := List.exists_mem_of_length_pos hfate
      have hfault : f.located ∈ faults := by
        have hlocated := List.mem_map_of_mem (f := Failure.located) hf
        rcases List.mem_pair.mp hmem with rfl | rfl
        · exact hlocated
        · exact hfaults ▸ List.mem_append_right _ hlocated
      exact Report.success_eq_false
        (List.mem_append_right _ (List.mem_map_of_mem hfault)) rfl
    · have herrors := Nat.lt_of_lt_of_le hfate (runScript_errorCount fuel s i)
      obtain ⟨d, hd, herror⟩ := Diagnostic.exists_error_ofParse herrors
      exact Report.success_eq_false (List.mem_append_left _ hd) herror
  · intro hsuccess d hd
    rw [Report.success_of] at hsuccess
    exact of_decide_eq_true (List.all_eq_true.mp hsuccess d hd)

/-- At the end of a text, a step yields no statement and raises no error. -/
theorem advance_silent_at_end :
    let s := ParseState.ofText 4096 ""
    s.advance.1.statement = none ∧ ¬ s.errors.size < s.advance.2.errors.size := by
  decide +kernel

/-- The text `1; ) 2 / 0; y;`, with a value, a token that begins no statement, and
two statements that fail. -/
def mixedFates : String := "1; ) 2 / 0; y;"

/-- A run of this text pulls four outcomes and leaves two faults, and the report on
it is no success. -/
theorem mixedFates_accounted :
    let s := ParseState.ofText 4096 mixedFates
    let ran := (new {}).runScript 9 s
    ran.stats = ⟨1, 2, 1⟩ ∧ ran.complete = true ∧
      ran.interpreter.faults.toList =
        [⟨.zeroDivision, ⟨5, 1, 6⟩⟩, ⟨.undefinedVariable "y", ⟨12, 1, 13⟩⟩] ∧
      (∃ pulled t, s.Yields pulled t ∧
        (ran.parser = t ∨ t.atEnd = true ∧ ran.parser = t.look 1) ∧
        pulled.length = 4) ∧
      (Report.ofRun "script" ran).success = false ∧
      s.advance.2.atEnd = false ∧ s.advance.2.advance.1.statement = none ∧
      s.advance.2.errors.size < s.advance.2.advance.2.errors.size := by
  intro s ran
  have hstats : ran.stats = ⟨1, 2, 1⟩ := by decide +kernel
  have hcomplete : ran.complete = true := by decide +kernel
  have hfaults : ran.interpreter.faults.toList =
      [⟨.zeroDivision, ⟨5, 1, 6⟩⟩, ⟨.undefinedVariable "y", ⟨12, 1, 13⟩⟩] := by
        decide +kernel
  have hend : s.advance.2.atEnd = false := by decide +kernel
  have hnone : s.advance.2.advance.1.statement = none := by decide +kernel
  obtain ⟨⟨pulled, t, hyields, hstop, hcount, _, _, hreport⟩, hraises⟩ :=
    run_accounts 9 (new {}) s "script"
  have hfailed : 0 < ran.stats.failed := by rw [hstats]; decide
  have hsuccess :=
    (hreport ran.interpreter.faults.toList (by simp [ran])).1 (.inl hfailed)
  have hlength : pulled.length = 4 := by
    change ran.stats.run + ran.stats.failed + ran.stats.skipped +
      (!ran.complete).toNat = _ at hcount
    rw [hstats, hcomplete] at hcount
    exact hcount.symm
  exact ⟨hstats, hcomplete, hfaults, ⟨pulled, t, hyields, hstop, hlength⟩,
    hsuccess, hend, hnone,
    hraises _ hend hnone⟩

end Interpreter

end ScriptLang
