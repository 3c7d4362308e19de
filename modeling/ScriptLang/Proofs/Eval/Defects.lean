import ScriptLang.Proofs.Eval.Agreement
import ScriptLang.Proofs.Parse.Shapes

/-!
# Runs without defects

A defect is a fault that only a tree that makes no sense, or a broken host, can
cause.  A script that is run with the standard functions of the host reports none:
evaluation is only handed trees that it can make sense of, there is always a frame
to declare names in, and a function of the host is never called with fewer arguments
than it asks for.

The proof compares each run with itself.  In the comparison `sensible` no defect is
put up with, and the functions of the host that may turn up are those that answer
sensibly to the number of arguments they take.
-/

namespace ScriptLang

/-! ## Hosts -/

/-- Whether an answer is no crash, shows no defect and holds no function. -/
def HostAnswer.isSensible : HostAnswer → Bool
  | .value v => v.isPlain
  | .fault cause => !cause.isDefect
  | .crash _ => false

/-- A function of the host that answers sensibly when it is called with as many
arguments as it takes. -/
def HostAction.Reliable (arity : Option Nat) (action : HostAction) : Prop :=
  ∀ arguments console, arity.any (· ≠ arguments.length) = false →
    (action arguments console).1.isSensible = true

/-- Runs of trees that make sense, which call only reliable functions of the host
and end in no defect. -/
def sensible (host : Array HostProcedure) : Comparison where
  lenient := False
  level depth _ := 0 < depth
  moves φ := φ = id
  trusts f := ∃ action, host[f.entry]? = some action ∧
    HostAction.Reliable f.arity action

/-- A host that has all functions of another one, in the same places. -/
def HostExtends (host host' : Array HostProcedure) : Prop :=
  ∀ (index : Nat) (action : HostProcedure), host[index]? = some action →
    host'[index]? = some action

/-- A new function of the host leaves the others at their places. -/
theorem hostExtends_push (host : Array HostProcedure) (action : HostProcedure) :
    HostExtends host (host.push action) := by
  intro index other hother
  obtain ⟨hlt, _⟩ := Array.getElem?_eq_some_iff.mp hother
  rw [Array.getElem?_push_lt hlt]
  rwa [Array.getElem?_eq_getElem hlt] at hother

/-- A value that is sensible stays so when functions are added to the host. -/
theorem sensible_mono {host host' : Array HostProcedure}
    (hhost : HostExtends host host') {v v' : Value}
    (h : (sensible host).Alike v v') : (sensible host').Alike v v' := by
  induction h with
  | plain hplain => exact .plain hplain
  | closure hφ hfit => exact .closure hφ hfit
  | native htrusts =>
      obtain ⟨action, haction, hreliable⟩ := htrusts
      exact .native ⟨action, hhost _ _ haction, hreliable⟩
  | namespace_ _ ih => exact .namespace_ ih

/-- On a sensible machine nothing fails inside. -/
theorem sensible_laws {g : Setting}
    (hspaces : ∀ space ∈ g.namespaces,
      (sensible g.host).Alike (.namespace_ space) (.namespace_ space)) :
    (sensible g.host).Laws g where
  level_enter _ := Nat.succ_pos _
  level_call _ _ _ := Nat.succ_pos _
  grounded h := .inr h
  spaces := hspaces
  host {f action arguments arguments'} console htrusts haction harity
      harguments := by
    have hsame : List.Forall₂ Eq arguments arguments' :=
      harguments.imp fun _ _ h => (h.eq fun _ hφ => hφ).symm
    obtain rfl : arguments = arguments' := List.forall₂_eq_eq_eq ▸ hsame
    refine ⟨?_, rfl⟩
    obtain ⟨other, hother, hreliable⟩ := htrusts
    obtain rfl : other = action := Option.some.inj (hother.symm.trans haction)
    have hsensible := hreliable arguments console harity
    cases hanswer : (other arguments console).1 with
    | value v =>
        rw [hanswer] at hsensible
        exact .value (.plain hsensible)
    | fault cause =>
        rw [hanswer] at hsensible
        exact .fault (.inr ((Bool.not_eq_true' _).mp hsensible))
    | crash words =>
        rw [hanswer] at hsensible
        cases hsensible

/-! ## Interpreters -/

/-- An interpreter that knows only sensible values, and has reported no defect. -/
structure Interpreter.Sensible (i : Interpreter) : Prop where
  machine : (sensible i.setting.host).Machines i.machine i.machine
  spaces : ∀ space ∈ i.setting.namespaces,
    (sensible i.setting.host).Alike (.namespace_ space) (.namespace_ space)
  faults : ∀ located ∈ i.faults, located.what.isDefect = false

namespace Interpreter

variable {i : Interpreter}

/-- The faults after a statement are those from before and the one that the
statement ended in. -/
theorem mem_faults_run {fuel : Nat} {s : Stmt} {located : Located Fault}
    (h : located ∈ (i.run fuel s).2.faults) :
    located ∈ i.faults ∨
      (execute i.setting fuel s i.machine).1 = .failed located.what ∨
      ∃ words, (execute i.setting fuel s i.machine).1 = .crashed words := by
  unfold run at h
  dsimp only at h
  split at h
  · exact .inl h
  · exact .inl h
  · exact .inl h
  · rename_i fault hfault
    rcases Array.mem_push.mp h with h | rfl
    · exact .inl h
    · exact .inr (.inl hfault)
  · rename_i words hwords
    exact .inr (.inr ⟨words, hwords⟩)
  · exact .inl h

/-- A statement that makes sense reports no defect. -/
theorem run_sensible (hi : i.Sensible) (fuel : Nat) {s : Stmt} (hs : s.Evaluable) :
    (i.run fuel s).2.Sensible := by
  have hid : (sensible i.setting.host).moves id := rfl
  have hat :=
    Comparison.execute_at (sensible_laws hi.spaces) fuel hid (.inr hs) hi.machine
  rw [Stmt.moved_id] at hat
  have hstack :
    (reset i.machine.stack.length (execute i.setting fuel s i.machine).2).stack =
      (execute i.setting fuel s i.machine).2.stack := by
    simp [reset, Stack.truncate, hat.length_eq]
  refine ⟨?_, ?_, ?_⟩
  · rw [run_setting, run_machine]
    refine ⟨rfl, hat.machines.store, ?_⟩
    rw [hstack, hat.length_eq]
    exact hi.machine.level
  · rw [run_setting]
    exact hi.spaces
  · intro located hlocated
    have hends := hat.ends
    rcases mem_faults_run hlocated with hmem | hfailed | ⟨words, hcrashed⟩
    · exact hi.faults located hmem
    · rw [hfailed] at hends
      cases hends with
      | failed hallows => exact hallows.resolve_left id
    · rw [hcrashed] at hends
      cases hends with
      | crashed hlenient => exact absurd hlenient id

/-- A new interpreter is sensible. -/
theorem new_sensible (limits : Limits) : (new limits).Sensible where
  machine := by
    refine ⟨rfl, ⟨rfl, rfl, rfl, fun index => ?_, fun _ => rfl⟩, Nat.succ_pos _⟩
    refine .plain ?_
    simp [new, Store.root, Store.addFrame, Store.empty, Store.cell, Value.isPlain]
  spaces := by simp [new]
  faults := by simp [new]

/-- Defining a sensible value keeps an interpreter sensible. -/
theorem defineGlobal_sensible (hi : i.Sensible) (name : String) {v : Value}
    (hv : (sensible i.setting.host).Alike v v) :
    (i.defineGlobal name v).2.Sensible := by
  have hstore := (hi.machine.store.declare name hv true fun hnil =>
    Comparison.allows_emptyStack (sensible_laws hi.spaces) hi.machine hnil).2
  exact ⟨⟨rfl, hstore, hi.machine.level⟩, hi.spaces, hi.faults⟩

/-- A reliable function keeps an interpreter sensible, and is trusted. -/
theorem addNative_sensible (hi : i.Sensible) (name : String) {arity : Option Nat}
    {action : HostAction} (haction : action.Reliable arity) :
    (i.addNative name arity action).2.Sensible ∧
      (sensible (i.addNative name arity action).2.setting.host).trusts
        (i.addNative name arity action).1 := by
  have hextends := hostExtends_push i.setting.host action.procedure
  have hstore := hi.machine.store
  refine ⟨⟨⟨rfl, ?_, hi.machine.level⟩, ?_, hi.faults⟩, ?_⟩
  · exact ⟨rfl, rfl, rfl, fun index => sensible_mono hextends (hstore.value index),
      fun _ => rfl⟩
  · exact fun space hspace => sensible_mono hextends (hi.spaces space hspace)
  · exact ⟨action.procedure, Array.getElem?_push_size, haction⟩

end Interpreter

/-! ## Installing functions of the host -/

/-- A registry of reliable functions and plain values. -/
structure Registry.Reliable (r : Registry) : Prop where
  functions : ∀ f ∈ r.functions, f.action.Reliable f.arity
  members : ∀ space ∈ r.namespaces, ∀ f ∈ space.functions, f.action.Reliable f.arity
  values : ∀ space ∈ r.namespaces, ∀ entry ∈ space.values, entry.2.isPlain = true

namespace Registry

variable {i : Interpreter}

/-- Reliable functions as members of a namespace keep an interpreter sensible. -/
theorem addMembers_sensible (functions : List HostFunction) (hi : i.Sensible)
    (hfunctions : ∀ f ∈ functions, f.action.Reliable f.arity) :
    (addMembers functions i).2.Sensible ∧
      HostExtends i.setting.host (addMembers functions i).2.setting.host ∧
      ∀ entry ∈ (addMembers functions i).1,
        (sensible (addMembers functions i).2.setting.host).Alike
          entry.2 entry.2 := by
  induction functions generalizing i with
  | nil => exact ⟨hi, fun _ _ h => h, by simp [addMembers]⟩
  | cons f rest ih =>
      obtain ⟨hadded, htrusts⟩ :=
        Interpreter.addNative_sensible hi f.name (hfunctions f List.mem_cons_self)
      obtain ⟨hrest, hextends, hentries⟩ :=
        ih hadded fun f hf => hfunctions f (List.mem_cons_of_mem _ hf)
      refine ⟨hrest, fun index action h => hextends index action
        (hostExtends_push _ _ index action h), ?_⟩
      intro entry hentry
      rcases List.mem_cons.mp hentry with rfl | hentry
      · exact sensible_mono hextends (.native htrusts)
      · exact hentries entry hentry

/-- A namespace of reliable functions and plain values keeps an interpreter
sensible. -/
theorem installNamespace_sensible (space : HostNamespace) (hi : i.Sensible)
    (hfunctions : ∀ f ∈ space.functions, f.action.Reliable f.arity)
    (hvalues : ∀ entry ∈ space.values, entry.2.isPlain = true) :
    (installNamespace space i).Sensible := by
  have hfresh : i.fresh.2.Sensible :=
    ⟨⟨rfl, hi.machine.store, hi.machine.level⟩, hi.spaces, hi.faults⟩
  obtain ⟨hadded, _, hentries⟩ :=
    addMembers_sensible space.functions hfresh hfunctions
  refine ⟨⟨rfl, hadded.machine.store, hadded.machine.level⟩, ?_, hadded.faults⟩
  intro other hother
  rcases List.mem_cons.mp hother with rfl | hother
  · refine .namespace_ fun name v hmem => ?_
    rcases List.mem_append.mp hmem with hmem | hmem
    · exact .plain (hvalues _ hmem)
    · exact hentries _ hmem
  · exact hadded.spaces other (List.mem_filter.mp hother).1

/-- A reliable registry keeps an interpreter sensible. -/
theorem install_sensible {r : Registry} (hr : r.Reliable) (hi : i.Sensible) :
    (r.install i).2.Sensible := by
  refine install_induction (fun f hf i hi => ?_) (fun space hspace i hi => ?_) hi
  · obtain ⟨hadded, htrusts⟩ :=
      Interpreter.addNative_sensible hi f.name (hr.functions f hf)
    exact Interpreter.defineGlobal_sensible hadded f.name (.native htrusts)
  · exact installNamespace_sensible space hi (hr.members space hspace)
      (hr.values space hspace)

/-- A reliable registry with one more reliable function. -/
theorem register_reliable {r : Registry} (hr : r.Reliable) {f : HostFunction}
    (hf : f.action.Reliable f.arity) : (r.register f).Reliable where
  functions other hother := by
    rcases List.mem_cons.mp hother with rfl | hother
    · exact hf
    · exact hr.functions other (List.mem_filter.mp hother).1
  members := hr.members
  values := hr.values

end Registry

/-! ## The standard functions -/

namespace Host

/-- Whoever asks for an argument that was passed does not crash. -/
theorem argument_sensible {index : Nat} {arguments : List Value}
    {answer : Value → HostAnswer} (hindex : index < arguments.length)
    (hanswer : ∀ v, (answer v).isSensible = true) :
    (argument index arguments answer).isSensible = true := by
  unfold argument
  rw [List.getElem?_eq_getElem hindex]
  exact hanswer _

/-- A function that is reliable if it is called with a given number of arguments. -/
theorem reliable_of_length {count : Nat} {action : HostAction}
    (h : ∀ arguments console, arguments.length = count →
      (action arguments console).1.isSensible = true) :
    action.Reliable (some count) := by
  intro arguments console harity
  apply h
  have hcount : count = arguments.length := by simpa using harity
  exact hcount.symm

/-- Printing answers null, or a fault of the host. -/
theorem print_reliable : HostAction.Reliable none print := by
  intro arguments console _
  unfold print
  split <;> rfl

theorem quit_reliable : HostAction.Reliable (some 0) quit := fun _ _ _ => rfl

/-- With its one argument, `typeof` answers a text. -/
theorem typeOf_reliable : HostAction.Reliable (some 1) typeOf := by
  refine reliable_of_length fun arguments console hlength => ?_
  exact argument_sensible (by omega) fun _ => rfl

/-- A function of one number answers a number, or a fault of the host. -/
theorem onNumber_reliable (name : String) (onInt : Int64 → Int64)
    (onFloat : Float → Float) :
    HostAction.Reliable (some 1) (onNumber name onInt onFloat) := by
  refine reliable_of_length fun arguments console hlength =>
    argument_sensible (by omega) fun v => ?_
  split <;> rfl

/-- A function of two numbers answers a number, or a fault of the host. -/
theorem onNumbers_reliable (name : String) (onInts : Int64 → Int64 → Int64)
    (onFloats : Float → Float → Float) :
    HostAction.Reliable (some 2) (onNumbers name onInts onFloats) := by
  refine reliable_of_length fun arguments console hlength => ?_
  refine argument_sensible (by omega) fun first =>
    argument_sensible (by omega) fun second => ?_
  split
  · rfl
  · split <;> rfl

/-- The square root answers a number, or a fault of the host. -/
theorem squareRoot_reliable : HostAction.Reliable (some 1) squareRoot := by
  refine reliable_of_length fun arguments console hlength =>
    argument_sensible (by omega) fun v => ?_
  split
  · rfl
  · split <;> rfl

end Host

/-- All functions of the standard library are reliable. -/
theorem Registry.standard_reliable : standard.Reliable where
  functions := by
    simp only [standard, List.forall_mem_cons]
    exact ⟨Host.print_reliable, Host.quit_reliable, Host.typeOf_reliable, by simp⟩
  members := by
    simp only [standard, Host.math, List.forall_mem_cons]
    refine ⟨⟨?_, ?_, ?_, Host.squareRoot_reliable, ?_, ?_, by simp⟩, by simp⟩
    · exact Host.onNumber_reliable _ _ _
    · exact Host.onNumber_reliable _ _ _
    · exact Host.onNumber_reliable _ _ _
    · exact Host.onNumbers_reliable _ _ _
    · exact Host.onNumbers_reliable _ _ _
  values := by simp [standard, Host.math, Value.isPlain]

/-! ## Scripts -/

/-- A script that is run with the standard functions of the host reports no defect,
wherever `print` writes, as long as it answers what it cannot write with a fault of
its own.  Every statement that parsed cleanly can be performed, and none of the
faults that are reported is an internal one or an assignment to something else than
a name. -/
theorem runScript_no_defect (limits : Limits) (limit : Nat) (source : String)
    (fuel : Nat) (print : HostAction)
    (hprint : ∀ arguments console, (print arguments console).1 = .value .null ∨
      ∃ reason, (print arguments console).1 = .fault (.host "print" reason)) :
    let parser := ParseState.ofText limit source
    let i :=
      ((Registry.standard.register ⟨"print", none, print⟩).install
        (Interpreter.new limits)).2
    (∀ st, ⟨some st, true⟩ ∈ parser.outcomes.1 → st.Evaluable) ∧
      ∀ located ∈ (i.runScript fuel parser).interpreter.faults,
        (∀ message, located.what ≠ .internal message) ∧
          located.what ≠ .invalidTarget := by
  intro parser i
  have hreliable : HostAction.Reliable none print := by
    intro arguments console _
    rcases hprint arguments console with h | ⟨reason, h⟩ <;> rw [h] <;> rfl
  have hi : i.Sensible := Registry.install_sensible
    (Registry.register_reliable Registry.standard_reliable hreliable)
      (Interpreter.new_sensible limits)
  have hevaluable : ∀ st, ⟨some st, true⟩ ∈ parser.outcomes.1 → st.Evaluable :=
    fun st hst =>
    ParseState.outcomes_evaluable limit source hst
  refine ⟨hevaluable, ?_⟩
  have hrun : (i.runScript fuel parser).interpreter.Sensible :=
    Interpreter.runUpTo_induction (fun st hst _ hi => Interpreter.run_sensible hi
      fuel (hevaluable st hst)) hi
  intro located hlocated
  have hdefect := hrun.faults located hlocated
  constructor
  · intro message heq
    rw [heq] at hdefect
    cases hdefect
  · intro heq
    rw [heq] at hdefect
    cases hdefect

/-- A division by zero behind a pattern that groups two tests is reported as
such. -/
theorem guardedDivision_no_defect :
    let i :=
      ((Registry.standard.register ⟨"print", none, Host.print⟩).install
        (Interpreter.new {})).2
    let faults := (i.runScript 20 (ParseState.ofText 4096
      "match (3) \x7b (> 2 and is int): print(1 / 0); \x7d;")).interpreter.faults
    faults.toList.map Located.what = [.zeroDivision] ∧
      ∀ located ∈ faults, (∀ message, located.what ≠ .internal message) ∧
          located.what ≠ .invalidTarget := by
  have hsorted : (Registry.standard.register ⟨"print", none, Host.print⟩).sorted =
      Registry.standard.functions := by
    apply List.mergeSort_of_pairwise
    decide +kernel
  have hprint : ∀ arguments console, (Host.print arguments console).1 =
    .value .null ∨
      ∃ reason, (Host.print arguments console).1 =
          .fault (.host "print" reason) := by
    intro arguments console
    unfold Host.print
    split
    · exact .inr ⟨_, rfl⟩
    · exact .inl rfl
  intro i faults
  constructor
  · unfold faults i Registry.install
    rw [hsorted]
    decide +kernel
  · exact (runScript_no_defect {} 4096 _ 20 Host.print hprint).2

end ScriptLang
