import ScriptLang.Proofs.Eval.Agreement
import ScriptLang.Proofs.Eval.Runs
import ScriptLang.Proofs.Parse.Concatenation

/-!
# Scripts in pieces

A script that ends with the semicolon of its last statement can be cut off there: it
makes no difference whether what follows is part of the same text or a script of its
own, run later by the same interpreter.  The second text is parsed alike either way,
at other places, and nothing that evaluation does depends on where a tree stands.
What is written, what is bound and what is counted is the same; faults are reported
at the places that belong to the text at hand.

Functions of the host see the functions of a script, and with them their places,
when these are passed as arguments.  So a host must not look at those places
(`HostAction.Blind`), which the standard functions do not.
-/

namespace ScriptLang

/-! ## Places do not matter -/

/-- Runs of trees that are the same, or differ by a map of positions. -/
def placeless (φ : Position → Position) : Comparison where
  lenient := True
  level _ _ := True
  moves ψ := ψ = id ∨ ψ = φ
  trusts _ := True

/-- A value is like itself, wherever its trees stand. -/
theorem placeless_refl (φ : Position → Position) (v : Value) :
    (placeless φ).Alike v v :=
  .refl (C := placeless φ) (Or.inl rfl) trivial (fun _ => trivial) v

/-- A function of the host to which it makes no difference where in a text the
functions stand that are passed to it. -/
def HostAction.Blind (action : HostAction) : Prop :=
  ∀ (φ : Position → Position) (arguments arguments' : List Value)
      (console : Console),
    List.Forall₂ (placeless φ).Alike arguments arguments' →
    (placeless φ).Answers (action arguments console).1
      (action arguments' console).1 ∧
      (action arguments' console).2 = (action arguments console).2

/-- With blind functions of the host, nothing depends on places. -/
theorem placeless_laws {g : Setting}
    (hhost : ∀ action ∈ g.host, HostAction.Blind action) (φ : Position → Position) :
    (placeless φ).Laws g where
  level_enter _ := trivial
  level_call _ _ _ := trivial
  grounded _ := .inl trivial
  spaces space _ := placeless_refl φ (.namespace_ space)
  host {_ action arguments arguments'} console _ haction _ harguments :=
    hhost action (Array.mem_of_getElem? haction) φ arguments arguments'
      console harguments

/-! ## One statement -/

/-- Interpreters that know the same, up to places, and have reported the same since
both had reported `old`. -/
structure Interpreter.Alike (φ : Position → Position) (old : Array (Located Fault))
    (i i' : Interpreter) :
    Prop where
  setting_eq : i'.setting = i.setting
  machines : (placeless φ).Machines i.machine i'.machine
  faults : ∃ later, i.faults = old ++ later ∧
    i'.faults = old ++ later.map (Located.moved φ)

/-- What a result adds to the counts of a run, unless the run ends with it. -/
def RunResult.stats? : RunResult → Option Stats
  | .value _ => some { run := 1 }
  | .failed _ => some { failed := 1 }
  | .exhausted => none

namespace Interpreter

variable {φ : Position → Position} {old : Array (Located Fault)}
  {i i' : Interpreter}

theorem alike_refl (φ : Position → Position) (i : Interpreter) :
    i.Alike φ i.faults i where
  setting_eq := rfl
  machines :=
    ⟨rfl, ⟨rfl, rfl, rfl, fun _ => placeless_refl φ _, fun _ => rfl⟩, trivial⟩
  faults := ⟨#[], by simp, by simp⟩

/-- Alike interpreters have written the same. -/
theorem Alike.console_eq (h : i.Alike φ old i') :
    i'.machine.console = i.machine.console := by
  rw [h.machines.eq_with]

/-- Alike interpreters see the same frames. -/
theorem Alike.stack_eq (h : i.Alike φ old i') :
    i'.machine.stack = i.machine.stack := by
  rw [h.machines.eq_with]

/-- Names are bound to corresponding values. -/
theorem Alike.global?_rel (h : i.Alike φ old i') (name : String) :
    Option.Rel (placeless φ).Alike (i.global? name) (i'.global? name) := by
  unfold global? Store.access
  rw [h.stack_eq, h.machines.store.resolve?_eq]
  cases i.machine.store.resolve? name i.machine.stack with
  | none => exact .none
  | some index => exact .some (h.machines.store.value index)

/-- Alike machines stay so when they go back to the top level. -/
theorem reset_machines (depth : Nat) {m m' : Machine}
    (h : (placeless φ).Machines m m') :
    (placeless φ).Machines (reset depth m) (reset depth m') := by
  obtain ⟨store', rfl, hstore⟩ := h.exists_store
  exact ⟨rfl, hstore, trivial⟩

/-- A statement and its copy elsewhere run alike. -/
theorem run_alike (hhost : ∀ action ∈ i.setting.host, HostAction.Blind action)
    (h : i.Alike φ old i') (fuel : Nat) (s : Stmt) :
    (i'.run fuel (s.moved φ)).1.stats? = (i.run fuel s).1.stats? ∧
      (i.run fuel s).2.Alike φ old (i'.run fuel (s.moved φ)).2 := by
  have hat :=
    Comparison.execute_at (placeless_laws hhost φ) fuel (Or.inr rfl) (s := s)
      (.inl trivial) h.machines
  obtain ⟨later, hfaults, hfaults'⟩ := h.faults
  unfold run
  rw [h.setting_eq, h.stack_eq]
  rcases hrun : execute i.setting fuel s i.machine with ⟨outcome, m⟩
  rcases hrun' : execute i.setting fuel (s.moved φ) i'.machine with ⟨outcome', m'⟩
  rw [hrun, hrun'] at hat
  have hmachines := reset_machines i.machine.stack.length hat.machines
  have hkept : Alike φ old ⟨i.setting, reset i.machine.stack.length m, i.faults⟩
      ⟨i.setting, reset i.machine.stack.length m', i'.faults⟩ :=
        ⟨rfl, hmachines, later, hfaults, hfaults'⟩
  have hfailed : ∀ fault : Fault,
      Alike φ old ⟨i.setting, reset i.machine.stack.length m,
        i.faults.push ⟨fault, s.span.start⟩⟩
        ⟨i.setting, reset i.machine.stack.length m',
          i'.faults.push ⟨fault, (s.moved φ).span.start⟩⟩ := by
    intro fault
    refine ⟨rfl, hmachines, later.push ⟨fault, s.span.start⟩, ?_, ?_⟩
    · rw [hfaults, Array.push_append]
    · rw [hfaults', Array.map_push, Array.push_append, Stmt.span_moved]
      rfl
  cases hat.ends with
  | value _ => exact ⟨rfl, hkept⟩
  | breaking => exact ⟨rfl, hkept⟩
  | returning _ => exact ⟨rfl, hkept⟩
  | failed _ => exact ⟨rfl, hfailed _⟩
  | crashed _ => exact ⟨rfl, hfailed _⟩
  | exhausted => exact ⟨rfl, hkept⟩

end Interpreter

/-! ## Many statements -/

/-- Counts of two runs together. -/
instance : Add Stats :=
  ⟨fun a b => ⟨a.run + b.run, a.failed + b.failed, a.skipped + b.skipped⟩⟩

theorem Stats.add_def (a b : Stats) :
    a + b = ⟨a.run + b.run, a.failed + b.failed, a.skipped + b.skipped⟩ := rfl

/-- Statistics are added up in any grouping. -/
theorem Stats.add_assoc (a b c : Stats) : a + b + c = a + (b + c) := by
  simp only [add_def, Nat.add_assoc]

/-- How far a run has come, apart from its text. -/
structure Tally where
  interpreter : Interpreter
  stats : Stats := {}
  complete : Bool := true

namespace Tally

/-- Whether nothing more is run. -/
def ended (t : Tally) : Bool := t.interpreter.shouldQuit || !t.complete

/-- Runs the statement of one outcome, unless the run has ended. -/
def step (fuel : Nat) (t : Tally) (o : ParseOutcome) : Tally :=
  if t.ended then t
  else
    match o with
    | ⟨some st, true⟩ =>
      match (t.interpreter.run fuel st).1.stats? with
      | some gained =>
          { t with
            interpreter := (t.interpreter.run fuel st).2
            stats := t.stats + gained }
      | none =>
          { t with interpreter := (t.interpreter.run fuel st).2, complete := false }
    | _ => { t with stats := t.stats + { skipped := 1 } }

variable {fuel : Nat} {t : Tally}

/-- A run that has ended takes no further outcome. -/
theorem step_of_ended (h : t.ended = true) (o : ParseOutcome) :
    t.step fuel o = t := by
  unfold step
  rw [if_pos h]

/-- An outcome without a clean statement is skipped. -/
theorem step_of_skipped (h : t.ended = false) {o : ParseOutcome}
    (ho : ∀ st, o ≠ ⟨some st, true⟩) :
    t.step fuel o = { t with stats := t.stats + { skipped := 1 } } := by
  unfold step
  rw [h, if_neg Bool.false_ne_true]
  split
  · exact absurd rfl (ho _)
  · rfl

/-- A clean statement is run. -/
theorem step_of_clean (h : t.ended = false) (st : Stmt) :
    t.step fuel ⟨some st, true⟩ =
      match (t.interpreter.run fuel st).1.stats? with
      | some gained =>
          { t with
            interpreter := (t.interpreter.run fuel st).2
            stats := t.stats + gained }
      | none =>
          { t with
            interpreter := (t.interpreter.run fuel st).2
            complete := false } := by
  unfold step
  rw [h, if_neg Bool.false_ne_true]

/-- A run with some counts before it. -/
def after (stats : Stats) (t : Tally) : Tally := { t with stats := stats + t.stats }

/-- What was counted before does not matter to a step. -/
theorem step_after (fuel : Nat) (stats : Stats) (t : Tally) (o : ParseOutcome) :
    (t.after stats).step fuel o = (t.step fuel o).after stats := by
  have hended : (t.after stats).ended = t.ended := rfl
  unfold step
  rw [hended]
  unfold after
  dsimp only
  split
  · rfl
  · split
    · split
      · rw [Stats.add_assoc]
      · rfl
    · rw [Stats.add_assoc]

/-- What was counted before does not matter to a run. -/
theorem foldl_after (fuel : Nat) (stats : Stats) (t : Tally)
    (os : List ParseOutcome) :
    os.foldl (step fuel) (t.after stats) = (os.foldl (step fuel) t).after stats :=
  List.foldl_hom (after stats) fun t o => step_after fuel stats t o

/-- A run that has ended stays as it is. -/
theorem foldl_of_ended (h : t.ended = true) (os : List ParseOutcome) :
    os.foldl (step fuel) t = t := by
  induction os with
  | nil => rfl
  | cons o os ih => rw [List.foldl_cons, step_of_ended h, ih]

/-- A step leaves the setting as it is. -/
theorem step_setting (fuel : Nat) (t : Tally) (o : ParseOutcome) :
    (t.step fuel o).interpreter.setting = t.interpreter.setting := by
  unfold step
  split
  · rfl
  · split
    · split <;> exact Interpreter.run_setting _ _ _
    · rfl

/-- Runs that have come equally far, up to places. -/
structure Alike (φ : Position → Position) (old : Array (Located Fault))
    (t t' : Tally) : Prop where
  interpreter : t.interpreter.Alike φ old t'.interpreter
  stats_eq : t'.stats = t.stats
  complete_eq : t'.complete = t.complete

variable {φ : Position → Position} {old : Array (Located Fault)} {t' : Tally}

/-- Alike runs end together. -/
theorem Alike.ended_eq (h : t.Alike φ old t') : t'.ended = t.ended := by
  unfold ended Interpreter.shouldQuit
  rw [h.interpreter.console_eq, h.complete_eq]

/-- Outcomes that differ in places only are run alike. -/
theorem step_alike
    (hhost : ∀ action ∈ t.interpreter.setting.host, HostAction.Blind action)
    (h : t.Alike φ old t') (fuel : Nat) (o : ParseOutcome) :
    (t.step fuel o).Alike φ old (t'.step fuel (o.moved φ)) := by
  have hended := h.ended_eq
  cases hend : t.ended with
  | true =>
      rw [step_of_ended hend, step_of_ended (hended.trans hend)]
      exact h
  | false =>
      rw [hend] at hended
      have hskipped : Alike φ old { t with stats := t.stats + { skipped := 1 } }
          { t' with stats := t'.stats + { skipped := 1 } } :=
        ⟨h.interpreter, by rw [h.stats_eq], h.complete_eq⟩
      rcases o with ⟨_ | st, success⟩
      · rw [step_of_skipped hend (by simp),
          step_of_skipped hended (by simp [ParseOutcome.moved])]
        exact hskipped
      · cases success with
        | false =>
            rw [step_of_skipped hend (by simp),
              step_of_skipped hended (by simp [ParseOutcome.moved])]
            exact hskipped
        | true =>
            obtain ⟨hstats, hrun⟩ :=
              Interpreter.run_alike hhost h.interpreter fuel st
            have hmoved : ParseOutcome.moved φ ⟨some st, true⟩ =
              ⟨some (st.moved φ), true⟩ := rfl
            rw [hmoved, step_of_clean hend, step_of_clean hended, hstats]
            cases (t.interpreter.run fuel st).1.stats? with
            | some gained => exact ⟨hrun, by rw [h.stats_eq], h.complete_eq⟩
            | none => exact ⟨hrun, h.stats_eq, rfl⟩

/-- Runs of the same statements at other places stay alike. -/
theorem foldl_alike
    (hhost : ∀ action ∈ t.interpreter.setting.host, HostAction.Blind action)
    (h : t.Alike φ old t') (fuel : Nat) (os : List ParseOutcome) :
    (os.foldl (step fuel) t).Alike φ old
      ((os.map (ParseOutcome.moved φ)).foldl (step fuel) t') := by
  induction os generalizing t t' with
  | nil => exact h
  | cons o os ih =>
      rw [List.foldl_cons, List.map_cons, List.foldl_cons]
      exact ih (by rwa [step_setting]) (step_alike hhost h fuel o)

end Tally

namespace Interpreter

variable {σ : Type} [TokenSource σ]

/-- What a run has come to, apart from its text. -/
def Progress.tally (p : Progress σ) : Tally := ⟨p.interpreter, p.stats, p.complete⟩

/-- A script is run outcome by outcome.  A run that has ended pulls no more of them,
and would not be changed by them either. -/
theorem runUpTo_tally (fuel count : Nat) (s : σ) (i : Interpreter) (stats : Stats) :
    (runUpTo fuel count ⟨i, s, stats, true⟩).tally =
      (TokenSource.outcomesUpTo count s).1.foldl (Tally.step fuel)
        ⟨i, stats, true⟩ := by
  induction count generalizing s i stats with
  | zero => rfl
  | succ count ih =>
      by_cases hquit : i.shouldQuit = true
      · rw [Tally.foldl_of_ended (by simp [Tally.ended, hquit])]
        simp only [runUpTo, if_pos hquit]
        rfl
      have hgoes : Tally.ended ⟨i, stats, true⟩ = false := by
        simpa [Tally.ended] using hquit
      rcases hnext : TokenSource.next? s with ⟨_ | o, s'⟩
      · rw [TokenSource.outcomesUpTo_of_none hnext]
        simp only [runUpTo, if_neg hquit, hnext]
        rfl
      · rw [TokenSource.outcomesUpTo_of_some hnext, List.foldl_cons]
        simp only [runUpTo, if_neg hquit, hnext]
        rcases o with ⟨_ | st, _ | _⟩
        · rw [Tally.step_of_skipped hgoes (by simp)]
          exact ih s' _ _
        · rw [Tally.step_of_skipped hgoes (by simp)]
          exact ih s' _ _
        · rw [Tally.step_of_skipped hgoes (by simp)]
          exact ih s' _ _
        · rw [Tally.step_of_clean hgoes]
          dsimp only
          rcases hrun : i.run fuel st with ⟨v | fault | _, i'⟩
          · exact ih s' _ _
          · exact ih s' _ _
          · rw [Tally.foldl_of_ended (by simp [Tally.ended, RunResult.stats?])]
            rfl

/-- A run tallies the outcomes of its parse one after the other. -/
theorem runScript_tally (fuel : Nat) (s : σ) (i : Interpreter) :
    (i.runScript fuel s).tally =
      (TokenSource.outcomes s).1.foldl (Tally.step fuel) { interpreter := i } :=
  runUpTo_tally fuel (TokenSource.remaining s + 1) s i {}

end Interpreter

/-! ## The standard functions -/

namespace Host

variable {φ : Position → Position} {arguments arguments' : List Value}

/-- An answer is like itself. -/
theorem answers_refl (φ : Position → Position) (answer : HostAnswer) :
    (placeless φ).Answers answer answer := by
  cases answer with
  | value v => exact .value (placeless_refl φ v)
  | fault fault => exact .fault (.inl trivial)
  | crash words => exact .crash trivial

/-- A function whose answer is the same wherever its arguments stand. -/
theorem blind_of_eq {action : HostAction}
    (h : ∀ {φ arguments arguments'} console,
      List.Forall₂ (placeless φ).Alike arguments arguments' →
      action arguments' console = action arguments console) :
    HostAction.Blind action := by
  intro φ arguments arguments' console harguments
  rw [h console harguments]
  exact ⟨answers_refl φ _, rfl⟩

/-- Alike arguments are alike one by one. -/
theorem getElem?_alike (h : List.Forall₂ (placeless φ).Alike arguments arguments')
    (index : Nat) :
    Option.Rel (placeless φ).Alike arguments[index]? arguments'[index]? := by
  induction h generalizing index with
  | nil => exact .none
  | cons hv _ ih =>
      cases index with
      | zero => exact .some hv
      | succ index => simpa using ih index

/-- A function that looks at one of its arguments, and not at places. -/
theorem argument_eq (h : List.Forall₂ (placeless φ).Alike arguments arguments')
    (index : Nat) {answer answer' : Value → HostAnswer}
    (hanswer : ∀ v v', (placeless φ).Alike v v' → answer' v' = answer v) :
    argument index arguments' answer' = argument index arguments answer := by
  have hindex := getElem?_alike h index
  unfold argument
  rw [h.length_eq]
  revert hindex
  cases arguments[index]? <;> cases arguments'[index]? <;> intro hindex
  · rfl
  · cases hindex
  · cases hindex
  · cases hindex with
    | some hv => exact hanswer _ _ hv

/-- Printing does not see where trees stand. -/
theorem print_blind : HostAction.Blind print := by
  refine blind_of_eq fun {φ arguments arguments'} console harguments => ?_
  have htexts : arguments'.map Value.text = arguments.map Value.text := by
    induction harguments with
    | nil => rfl
    | cons hv _ ih => rw [List.map_cons, List.map_cons, hv.text_eq, ih]
  unfold print
  rw [htexts]

theorem quit_blind : HostAction.Blind quit := blind_of_eq fun _ _ => rfl

/-- A function of its arguments alone, which does not see where trees stand. -/
theorem pure_blind {answer : List Value → HostAnswer}
    (h : ∀ {φ arguments arguments'},
      List.Forall₂ (placeless φ).Alike arguments arguments' →
      answer arguments' = answer arguments) :
    HostAction.Blind (pure answer) :=
  blind_of_eq fun console harguments => congrArg (·, console) (h harguments)

/-- The name of a type does not depend on places. -/
theorem typeOf_blind : HostAction.Blind typeOf := by
  refine pure_blind fun harguments => argument_eq harguments 0 fun v v' hv => ?_
  rw [hv.typeText_eq]

/-- Functions of one number do not see places. -/
theorem onNumber_blind (name : String) (onInt : Int64 → Int64)
    (onFloat : Float → Float) :
    HostAction.Blind (onNumber name onInt onFloat) := by
  refine pure_blind fun harguments => argument_eq harguments 0 fun v v' hv => ?_
  obtain rfl | ⟨f, f', rfl, rfl, _⟩ := hv.cases_eq <;> rfl

/-- Functions of two numbers do not see places. -/
theorem onNumbers_blind (name : String) (onInts : Int64 → Int64 → Int64)
    (onFloats : Float → Float → Float) :
    HostAction.Blind (onNumbers name onInts onFloats) := by
  refine pure_blind fun harguments => argument_eq harguments 0 fun v v' hv =>
    argument_eq harguments 1 fun w w' hw => ?_
  obtain rfl | ⟨f, f', rfl, rfl, _⟩ :=
    hv.cases_eq <;> obtain rfl | ⟨k, k', rfl, rfl, _⟩ := hw.cases_eq
  · rfl
  · cases v' <;> rfl
  · rfl
  · rfl

/-- The square root does not see places. -/
theorem squareRoot_blind : HostAction.Blind squareRoot := by
  refine pure_blind fun harguments => argument_eq harguments 0 fun v v' hv => ?_
  obtain rfl | ⟨f, f', rfl, rfl, _⟩ := hv.cases_eq <;> rfl

end Host

/-- A registry of functions that do not look at places. -/
structure Registry.Blind (r : Registry) : Prop where
  functions : ∀ f ∈ r.functions, HostAction.Blind f.action
  members : ∀ space ∈ r.namespaces, ∀ f ∈ space.functions, HostAction.Blind f.action

namespace Registry

/-- An interpreter whose functions of the host do not look at places. -/
def BlindHost (i : Interpreter) : Prop :=
  ∀ action ∈ i.setting.host, HostAction.Blind action

variable {i : Interpreter}

/-- A host of blind functions with one more. -/
theorem addNative_blind (hi : BlindHost i) (name : String) (arity : Option Nat)
    {action : HostAction} (haction : HostAction.Blind action) :
    BlindHost (i.addNative name arity action).2 := by
  intro other hother
  rcases Array.mem_push.mp hother with hother | rfl
  · exact hi other hother
  · exact haction

/-- A host of blind functions with the members of a namespace. -/
theorem addMembers_blind (functions : List HostFunction) (hi : BlindHost i)
    (hfunctions : ∀ f ∈ functions, HostAction.Blind f.action) :
    BlindHost (addMembers functions i).2 := by
  induction functions generalizing i with
  | nil => exact hi
  | cons f rest ih =>
      have hadded :=
        addNative_blind hi f.name f.arity (hfunctions f List.mem_cons_self)
      exact ih hadded fun f hf => hfunctions f (List.mem_cons_of_mem _ hf)

/-- A host of blind functions with those of a registry. -/
theorem install_blind {r : Registry} (hr : r.Blind) (hi : BlindHost i) :
    BlindHost (r.install i).2 := by
  refine install_induction (fun f hf i hi => ?_) (fun space hspace i hi => ?_) hi
  · exact addNative_blind hi f.name f.arity (hr.functions f hf)
  · exact addMembers_blind (i := i.fresh.2) space.functions hi
      (hr.members space hspace)

/-- The standard library does not see places. -/
theorem standard_blind : standard.Blind where
  functions := by
    simp only [standard, List.forall_mem_cons]
    exact ⟨Host.print_blind, Host.quit_blind, Host.typeOf_blind, by simp⟩
  members := by
    simp only [standard, Host.math, List.forall_mem_cons]
    refine ⟨⟨?_, ?_, ?_, Host.squareRoot_blind, ?_, ?_, by simp⟩, by simp⟩
    · exact Host.onNumber_blind _ _ _
    · exact Host.onNumber_blind _ _ _
    · exact Host.onNumber_blind _ _ _
    · exact Host.onNumbers_blind _ _ _
    · exact Host.onNumbers_blind _ _ _

/-- An interpreter with the standard library has a host of blind functions. -/
theorem standard_install_blind (limits : Limits) :
    BlindHost (standard.install (Interpreter.new limits)).2 :=
  install_blind standard_blind fun _ h => by simp [Interpreter.new] at h

/-- The standard functions are listed in the order of their names. -/
theorem standard_sorted : standard.sorted = standard.functions := by
  apply List.mergeSort_of_pairwise
  decide +kernel

end Registry

/-! ## Two scripts, one behind the other -/

open Interpreter

/-- The two ways to run two scripts, one behind the other. -/
theorem runScript_append {limit : Nat} {p : String} (hp : EndsInStatement limit p)
    (q : String) (fuel : Nat) {i : Interpreter}
    (hhost : ∀ action ∈ i.setting.host, HostAction.Blind action) :
    let ran := i.runScript fuel (ParseState.ofText limit p)
    let resumed := ran.interpreter.runScript fuel (ParseState.ofText limit q)
    let whole := i.runScript fuel (ParseState.ofText limit (p ++ q))
    whole.complete = (ran.complete && resumed.complete) ∧ (ran.complete = true →
      whole.stats = ran.stats + resumed.stats ∧
        resumed.interpreter.Alike (Position.extent p).shift ran.interpreter.faults
            whole.interpreter) := by
  intro ran resumed whole
  have hran : ran.tally =
      (ParseState.ofText limit p).outcomes.1.foldl (Tally.step fuel)
        { interpreter := i } :=
    runScript_tally fuel (ParseState.ofText limit p) i
  have hresumed : resumed.tally = (ParseState.ofText limit q).outcomes.1.foldl
    (Tally.step fuel)
      { interpreter := ran.interpreter } :=
    runScript_tally fuel (ParseState.ofText limit q) ran.interpreter
  have hwhole : whole.tally =
      (ParseState.ofText limit (p ++ q)).outcomes.1.foldl (Tally.step fuel)
        { interpreter := i } :=
    runScript_tally fuel (ParseState.ofText limit (p ++ q)) i
  obtain ⟨_, _, houtcomes⟩ := hp.outcomes_append q
  rw [houtcomes, List.foldl_append, ← hran] at hwhole
  cases hcomplete : ran.complete with
  | false =>
      rw [Tally.foldl_of_ended (by simp [Tally.ended, Progress.tally, hcomplete])]
        at hwhole
      refine ⟨?_, fun h => nomatch h⟩
      exact (congrArg Tally.complete hwhole).trans hcomplete
  | true =>
      have hstart : ran.tally = Tally.after ran.stats
          { interpreter := ran.interpreter } := by
        rw [Progress.tally, hcomplete]
        rfl
      have hsetting : ran.interpreter.setting = i.setting :=
        runUpTo_induction (I := fun j => j.setting = i.setting)
          (fun st _ j hj => (run_setting fuel st j).trans hj) rfl
      have halike :=
        Tally.foldl_alike (t := { interpreter := ran.interpreter }) (by rwa [hsetting])
        ⟨alike_refl (Position.extent p).shift ran.interpreter, rfl, rfl⟩ fuel
        (ParseState.ofText limit q).outcomes.1
      rw [← hresumed] at halike
      rw [hstart, Tally.foldl_after] at hwhole
      refine ⟨?_, fun _ => ⟨?_, ?_⟩⟩
      · exact (congrArg Tally.complete hwhole).trans halike.complete_eq
      · exact (congrArg Tally.stats hwhole).trans
          (congrArg (ran.stats + ·) halike.stats_eq)
      · have hinterpreter : whole.interpreter = _ :=
          congrArg Tally.interpreter hwhole
        rw [hinterpreter]
        exact halike.interpreter

/-- Two texts can be parsed and run as one or one after the other, if the first ends
with the semicolon of its last statement, whether or not all of its statements parse
cleanly.

The outcomes and all reports of the two texts together are those of the first and
then those of the second, shifted by the extent of the first.  And on every
interpreter whose functions of the host do not look at places, both ways end with
the same output and quit flag, with names bound to the same values up to places,
with counts that add up, and with the same faults, those of the second text at
shifted places.  A run that does not complete is not followed by another: then the
run of both texts does not complete either. -/
theorem concatenation_runs_in_pieces {limit : Nat} {p : String}
    (hp : EndsInStatement limit p) (q : String) :
    let first := ParseState.ofText limit p
    let second := ParseState.ofText limit q
    let both := ParseState.ofText limit (p ++ q)
    let move := (Position.extent p).shift
    both.outcomes.1 = first.outcomes.1 ++ second.outcomes.1.map
      (ParseOutcome.moved move) ∧
      both.outcomes.2.errors = first.outcomes.2.errors ++
        second.outcomes.2.errors.map (Located.moved move) ∧
      both.outcomes.2.warnings =
        first.outcomes.2.warnings ++ second.outcomes.2.warnings.map
          (Located.moved move) ∧
      both.outcomes.2.lexicalErrors =
        first.outcomes.2.lexicalErrors ++ second.outcomes.2.lexicalErrors.map
          (Located.moved move) ∧
      both.outcomes.2.lexicalWarnings =
        first.outcomes.2.lexicalWarnings ++ second.outcomes.2.lexicalWarnings.map
          (Located.moved move) ∧
      ∀ (fuel : Nat) (i : Interpreter),
        (∀ action ∈ i.setting.host, HostAction.Blind action) →
        let ran := i.runScript fuel first
        let resumed := ran.interpreter.runScript fuel second
        let whole := i.runScript fuel both
        whole.complete = (ran.complete && resumed.complete) ∧
          (ran.complete = true →
            whole.stats = ran.stats + resumed.stats ∧
              whole.interpreter.machine.console =
                resumed.interpreter.machine.console ∧
              (∀ name, Option.Rel (placeless move).Alike
                (resumed.interpreter.global? name)
                (whole.interpreter.global? name)) ∧
              resumed.interpreter.Alike move ran.interpreter.faults
                  whole.interpreter) := by
  intro first second both move
  obtain ⟨houtcomes, herrors, hwarnings, hlexicalErrors, hlexicalWarnings⟩ :=
    hp.reports_append q
  refine ⟨houtcomes, herrors, hwarnings, hlexicalErrors, hlexicalWarnings,
    fun fuel i hhost => ?_⟩
  obtain ⟨hcomplete, hruns⟩ := runScript_append hp q fuel hhost
  refine ⟨hcomplete, fun hran => ?_⟩
  obtain ⟨hstats, halike⟩ := hruns hran
  exact ⟨hstats, halike.console_eq, halike.global?_rel, halike⟩

/-- A function that is defined in the first text fails when it is called in the
second, which then quits. -/
theorem failingCall_runs_in_pieces :
    let p := "init f = functi() 1 / 0;"
    let q := "\nf(); quit(); f();"
    let i := (Registry.standard.install (Interpreter.new {})).2
    let ran := i.runScript 9 (ParseState.ofText 4096 p)
    let resumed := ran.interpreter.runScript 9 (ParseState.ofText 4096 q)
    let whole := i.runScript 9 (ParseState.ofText 4096 (p ++ q))
    EndsInStatement 4096 p ∧ ran.complete = true ∧
      (whole.stats = ⟨2, 1, 0⟩ ∧
        whole.interpreter.faults.toList = [⟨.zeroDivision, ⟨25, 2, 1⟩⟩]) ∧
      resumed.interpreter.faults.toList = [⟨.zeroDivision, ⟨1, 2, 1⟩⟩] ∧
      whole.stats = ran.stats + resumed.stats ∧
      whole.interpreter.machine.console = resumed.interpreter.machine.console := by
  intro p q i ran resumed whole
  have hsorted : Registry.standard.sorted = Registry.standard.functions := by
    apply List.mergeSort_of_pairwise
    decide +kernel
  have hp : EndsInStatement 4096 p := by decide +kernel
  have hblind : ∀ action ∈ i.setting.host, HostAction.Blind action :=
    Registry.install_blind Registry.standard_blind (i := Interpreter.new {})
      fun _ h => by simp [new] at h
  have hcomplete : ran.complete = true := by
    unfold ran i Registry.install
    rw [hsorted]
    decide +kernel
  obtain ⟨_, _, _, _, _, hruns⟩ := concatenation_runs_in_pieces hp q
  obtain ⟨hstats, hconsole, _⟩ := (hruns 9 i hblind).2 hcomplete
  refine ⟨hp, hcomplete, ?_, ?_, hstats, hconsole⟩
  · unfold whole i Registry.install
    rw [hsorted]
    decide +kernel
  · unfold resumed ran i Registry.install
    rw [hsorted]
    decide +kernel

end ScriptLang
