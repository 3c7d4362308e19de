import ScriptLang.Host.Library
import ScriptLang.Proofs.Eval.Allocation

/-!
# Runs of scripts

A run of a script is a run of some of its statements: those that parsed cleanly, in
order, up to where the run ends (`Interpreter.runUpTo_ran`).  What every single
statement preserves, a whole run preserves.

Here this is used to show that scripts run on sound machines from start to end, once
the standard functions are installed, which return no closures at all.
-/

namespace ScriptLang

/-! ## What a run does -/

namespace Interpreter

variable {σ : Type} [TokenSource σ]

/-- What a run does to the interpreter is done by statements that parsed cleanly,
one after the other. -/
theorem runUpTo_ran (fuel count : Nat) (p : Progress σ) :
    ∃ ran : List Stmt, (∀ st ∈ ran,
      ⟨some st, true⟩ ∈ (TokenSource.outcomesUpTo count p.parser).1) ∧
      (runUpTo fuel count p).interpreter =
        ran.foldl (fun i st => (i.run fuel st).2) p.interpreter := by
  induction count generalizing p with
  | zero => exact ⟨[], by simp, rfl⟩
  | succ count ih =>
      unfold runUpTo
      split
      · exact ⟨[], by simp, rfl⟩
      · split
        · exact ⟨[], by simp, rfl⟩
        · rename_i statement parser hnext
          have hmem : ∀ ran : List Stmt,
              (∀ st ∈ ran, ⟨some st, true⟩ ∈
                (TokenSource.outcomesUpTo count parser).1) →
              ∀ st ∈ statement :: ran,
                ⟨some st, true⟩ ∈ (TokenSource.outcomesUpTo
                  (count + 1) p.parser).1 := by
            intro ran hran st hst
            rw [TokenSource.outcomesUpTo_of_some hnext]
            rcases List.mem_cons.mp hst with rfl | hst
            · exact List.mem_cons_self
            · exact List.mem_cons_of_mem _ (hran st hst)
          have hrun : ∀ result interpreter, p.interpreter.run fuel statement =
            (result, interpreter) →
              ∀ stats, ∃ ran : List Stmt,
                (∀ st ∈ ran, ⟨some st, true⟩ ∈
                  (TokenSource.outcomesUpTo (count + 1) p.parser).1) ∧
                  (runUpTo fuel count ⟨interpreter, parser, stats,
                    p.complete⟩).interpreter =
                    ran.foldl (fun i st => (i.run fuel st).2) p.interpreter := by
            intro result interpreter hresult stats
            obtain ⟨ran, hran, heq⟩ := ih ⟨interpreter, parser, stats, p.complete⟩
            exact ⟨statement :: ran, hmem ran hran, by simp [heq, hresult]⟩
          split
          · rename_i hresult
            exact hrun _ _ hresult _
          · rename_i hresult
            exact hrun _ _ hresult _
          · rename_i hresult
            exact ⟨[statement], hmem [] (by simp), by simp [hresult]⟩
        · rename_i parser _ hnext
          obtain ⟨ran, hran, heq⟩ :=
            ih { p with
              parser
              stats := { p.stats with skipped := p.stats.skipped + 1 } }
          refine ⟨ran, fun st hst => ?_, heq⟩
          rw [TokenSource.outcomesUpTo_of_some hnext]
          exact List.mem_cons_of_mem _ (hran st hst)

variable {I : Interpreter → Prop} {i : Interpreter}

/-- What single statements preserve, many of them preserve. -/
theorem foldl_run_induction {fuel : Nat} {ran : List Stmt}
    (hrun : ∀ st ∈ ran, ∀ i, I i → I (i.run fuel st).2) (hi : I i) :
    I (ran.foldl (fun i st => (i.run fuel st).2) i) := by
  induction ran generalizing i with
  | nil => exact hi
  | cons st ran ih =>
      have hnext := hrun st List.mem_cons_self i hi
      exact ih (fun st' hst' => hrun st' (List.mem_cons_of_mem _ hst')) hnext

/-- What every statement that parsed cleanly preserves, a run preserves. -/
theorem runUpTo_induction {fuel count : Nat} {p : Progress σ}
    (hrun : ∀ st, ⟨some st, true⟩ ∈ (TokenSource.outcomesUpTo count p.parser).1 →
      ∀ i, I i → I (i.run fuel st).2)
    (hp : I p.interpreter) : I (runUpTo fuel count p).interpreter := by
  obtain ⟨ran, hran, heq⟩ := runUpTo_ran fuel count p
  rw [heq]
  exact foldl_run_induction (fun st hst => hrun st (hran st hst)) hp

end Interpreter

/-! ## Runs stay sound -/

/-- An interpreter on which scripts can be run. -/
structure Interpreter.Sound (i : Interpreter) : Prop where
  honest : i.setting.Honest
  machine : i.machine.Sound i.setting

namespace Interpreter

variable {i : Interpreter}

/-- A statement that has been run leaves the stack as deep as it was, so going back
to that depth drops no frame. -/
theorem reset_stack {m m' : Machine} (h : m.Extended m') :
    (reset m.stack.length m').stack = m'.stack := by
  simp [reset, Stack.truncate, h.length_eq]

/-- A machine that goes back to the top level stays sound. -/
theorem reset_sound {g : Setting} {m m' : Machine} (h : m.Extended m')
    (hm' : m'.Sound g) :
    (reset m.stack.length m').Sound g := by
  refine ⟨?_, ?_, hm'.bound, hm'.knows, hm'.spaces⟩
  · rw [reset_stack h]
    exact hm'.inhabited
  · rw [reset_stack h]
    exact hm'.given

/-- A statement leaves the setting as it is. -/
theorem run_setting (fuel : Nat) (s : Stmt) (i : Interpreter) :
    (i.run fuel s).2.setting = i.setting := by
  unfold run
  dsimp only
  split <;> rfl

/-- Behind a statement, the machine goes back to the top level. -/
theorem run_machine (fuel : Nat) (s : Stmt) (i : Interpreter) :
    (i.run fuel s).2.machine =
      reset i.machine.stack.length (execute i.setting fuel s i.machine).2 := by
  unfold run
  dsimp only
  split <;> rfl

/-- A statement keeps an interpreter sound. -/
theorem run_sound (hi : i.Sound) (fuel : Nat) (s : Stmt) :
    (i.run fuel s).2.Sound := by
  refine ⟨?_, ?_⟩
  · rw [run_setting]
    exact hi.honest
  · rw [run_setting, run_machine]
    exact reset_sound (execute_extended _ _ _ _)
      (execute_sound hi.honest fuel s hi.machine)

/-- The loop over a script keeps an interpreter sound. -/
theorem runUpTo_sound (fuel count : Nat) (p : Progress ParseState)
    (hp : p.interpreter.Sound) :
    (runUpTo fuel count p).interpreter.Sound :=
  runUpTo_induction (fun st _ _ hi => run_sound hi fuel st) hp

/-- A new interpreter is sound. -/
theorem new_sound (limits : Limits) : (new limits).Sound where
  honest := by
    intro action haction
    simp [new] at haction
  machine := by
    refine ⟨List.cons_ne_nil _ _, ?_, ?_, ?_, ?_⟩
    · intro index hindex
      simp only [new, Store.root, Store.addFrame, Store.empty,
        List.mem_singleton] at hindex ⊢
      simp [hindex]
    · refine Store.Bound.addFrame (s := Store.empty) ?_ fun name cell hfound => by
        cases hfound
      intro index name cell hfound
      cases hfound
    · intro index
      exact Store.knows_of_isPlain
        _ (by
          simp [new, Store.root, Store.addFrame, Store.empty, Store.cell,
            Value.isPlain])
    · intro space hspace
      simp [new] at hspace

/-! ## Installing functions of the host -/

/-- Binding a value without closures at the top level. -/
theorem defineGlobal_sound (hi : i.Sound) (name : String) {v : Value}
    (hv : ∀ f, ¬ v.Holds f) :
    (i.defineGlobal name v).2.Sound :=
  ⟨hi.honest, Machine.sound_declare hi.machine
    (fun f hf => absurd hf (hv f)) name true⟩

end Interpreter

namespace Registry

variable {I : Interpreter → Prop} {i : Interpreter}

/-- What each function preserves when it is installed, all of them preserve, also
when one is refused. -/
theorem installFunctions_induction {functions : List HostFunction}
    (hfunction : ∀ f ∈ functions, ∀ i, I i →
      I ((i.addNative f.name f.arity f.action).2.defineGlobal f.name
      (.native (i.addNative f.name f.arity f.action).1)).2)
    (hi : I i) :
    I (installFunctions functions i).2 := by
  induction functions generalizing i with
  | nil => exact hi
  | cons f rest ih =>
      have hdefined := hfunction f List.mem_cons_self i hi
      have hrest :=
        fun other hother => hfunction other (List.mem_cons_of_mem f hother)
      unfold installFunctions
      dsimp only
      split
      · rename_i hresult
        rw [hresult] at hdefined
        exact ih hrest hdefined
      · rename_i hresult
        rw [hresult] at hdefined
        exact hdefined

/-- What each namespace keeps, all of them keep. -/
theorem installNamespaces_induction {spaces : List HostNamespace}
    (hspace : ∀ space ∈ spaces, ∀ i, I i → I (installNamespace space i))
    (hi : I i) :
    I (spaces.foldl (fun i space => installNamespace space i) i) := by
  induction spaces generalizing i with
  | nil => exact hi
  | cons space rest ih =>
      have hinstalled := hspace space List.mem_cons_self i hi
      exact ih (fun other hother => hspace other (List.mem_cons_of_mem _ hother))
        hinstalled

/-- What each function and each namespace preserves when it is installed, a registry
preserves. -/
theorem install_induction {r : Registry}
    (hfunction : ∀ f ∈ r.functions, ∀ i, I i →
      I ((i.addNative f.name f.arity f.action).2.defineGlobal f.name
      (.native (i.addNative f.name f.arity f.action).1)).2)
    (hspace : ∀ space ∈ r.namespaces, ∀ i, I i → I (installNamespace space i))
    (hi : I i) :
    I (r.install i).2 := by
  have hinstalled : I (installFunctions r.sorted i).2 :=
    installFunctions_induction (fun f hf => hfunction f
      ((List.mergeSort_perm _ _).mem_iff.mp hf)) hi
  unfold install
  split
  · rename_i hresult
    rw [hresult] at hinstalled
    exact installNamespaces_induction hspace hinstalled
  · rename_i hresult
    rw [hresult] at hinstalled
    exact hinstalled

end Registry

/-- A host function that returns no closures. -/
def HostAction.Silent (action : HostAction) : Prop :=
  ∀ arguments console v, (action arguments console).1 = .value v → ∀ f, ¬ v.Holds f

/-- A registry without closures: no value of it holds one, and no function of it
returns one. -/
structure Registry.Silent (r : Registry) : Prop where
  functions : ∀ f ∈ r.functions, HostAction.Silent f.action
  members : ∀ space ∈ r.namespaces, ∀ f ∈ space.functions,
    HostAction.Silent f.action
  values : ∀ space ∈ r.namespaces, ∀ entry ∈ space.values, ∀ f,
    ¬ Value.Holds entry.2 f

namespace Registry

variable {i : Interpreter}

/-- A function that hands out no closure keeps an interpreter sound. -/
theorem addNative_sound (hi : i.Sound) (name : String) (arity : Option Nat)
    {action : HostAction} (haction : HostAction.Silent action) :
    (i.addNative name arity action).2.Sound := by
  refine ⟨?_, ⟨hi.machine.inhabited, hi.machine.given, hi.machine.bound,
    hi.machine.knows, hi.machine.spaces⟩⟩
  intro other hother arguments console v hv f hf
  rcases Array.mem_push.mp hother with hother | rfl
  · exact hi.honest other hother arguments console v hv f hf
  · exact absurd hf (haction arguments console v hv f)

/-- Installing such a function keeps an interpreter sound. -/
theorem installFunction_sound (f : HostFunction) (hi : i.Sound)
    (haction : HostAction.Silent f.action) :
    ((i.addNative f.name f.arity f.action).2.defineGlobal f.name
      (.native (i.addNative f.name f.arity f.action).1)).2.Sound :=
  Interpreter.defineGlobal_sound (addNative_sound hi f.name f.arity haction) f.name
    fun _ hf => by cases hf

/-- The members that are added to a namespace are functions of the host, which hold
no closures. -/
theorem addMembers_sound (functions : List HostFunction) (hi : i.Sound)
    (hfunctions : ∀ f ∈ functions, HostAction.Silent f.action) :
    (addMembers functions i).2.Sound ∧
      ∀ entry ∈ (addMembers functions i).1, ∀ f, ¬ Value.Holds entry.2 f := by
  induction functions generalizing i with
  | nil => exact ⟨hi, by simp [addMembers]⟩
  | cons f rest ih =>
      have hadded :=
        addNative_sound hi f.name f.arity (hfunctions f List.mem_cons_self)
      obtain ⟨hsound, hentries⟩ :=
        ih hadded fun f hf => hfunctions f (List.mem_cons_of_mem _ hf)
      refine ⟨hsound, ?_⟩
      intro entry hentry
      rcases List.mem_cons.mp hentry with rfl | hentry
      · intro _ hf
        cases hf
      · exact hentries entry hentry

/-- Installing a namespace of such functions keeps an interpreter sound. -/
theorem installNamespace_sound (space : HostNamespace) (hi : i.Sound)
    (hfunctions : ∀ f ∈ space.functions, HostAction.Silent f.action)
    (hvalues : ∀ entry ∈ space.values, ∀ f, ¬ Value.Holds entry.2 f) :
    (installNamespace space i).Sound := by
  have hfresh : i.fresh.2.Sound :=
    ⟨hi.honest, hi.machine.inhabited, hi.machine.given, hi.machine.bound,
      hi.machine.knows,
      hi.machine.spaces⟩
  obtain ⟨hadded, hentries⟩ := addMembers_sound space.functions hfresh hfunctions
  refine ⟨hadded.honest, hadded.machine.inhabited, hadded.machine.given,
    hadded.machine.bound,
    hadded.machine.knows, ?_⟩
  intro other hother f hf
  rcases List.mem_cons.mp hother with rfl | hother
  · cases hf with
    | member hentry hf =>
        rcases List.mem_append.mp hentry with hentry | hentry
        · exact absurd hf (hvalues _ hentry f)
        · exact absurd hf (hentries _ hentry f)
  · exact hadded.machine.spaces other (List.mem_filter.mp hother).1 f hf

/-- An interpreter stays sound when a registry without closures is installed into
it. -/
theorem install_sound {r : Registry} (hr : r.Silent) (hi : i.Sound) :
    (r.install i).2.Sound := by
  refine install_induction (fun f hf i hi => ?_) (fun space hspace i hi => ?_) hi
  · exact installFunction_sound f hi (hr.functions f hf)
  · exact installNamespace_sound space hi (hr.members space hspace)
      (hr.values space hspace)

end Registry

/-! ## The standard functions -/

namespace Host

/-- A function whose answers are plain values returns no closures. -/
theorem silent_of_isPlain {action : HostAction}
    (h : ∀ arguments console v, (action arguments console).1 = .value v →
      v.isPlain = true) :
    HostAction.Silent action :=
  fun arguments console v hv =>
    Value.not_holds_of_isPlain (h arguments console v hv)

/-- Printing hands out no closure. -/
theorem print_silent : HostAction.Silent print := by
  apply silent_of_isPlain
  intro arguments console v hv
  unfold print at hv
  split at hv <;> cases hv
  rfl

/-- Quitting hands out no closure. -/
theorem quit_silent : HostAction.Silent quit := by
  apply silent_of_isPlain
  intro arguments console v hv
  cases hv
  rfl

/-- An answer with a value has found the argument that it asked for. -/
theorem argument_eq_value {index : Nat} {arguments : List Value}
    {answer : Value → HostAnswer} {v : Value}
    (h : argument index arguments answer = .value v) :
    ∃ w, answer w = .value v := by
  unfold argument at h
  split at h
  · exact ⟨_, h⟩
  · cases h

/-- The name of a type is no closure. -/
theorem typeOf_silent : HostAction.Silent typeOf := by
  apply silent_of_isPlain
  intro arguments console v hv
  obtain ⟨w, hw⟩ := argument_eq_value hv
  cases hw
  rfl

/-- Functions of one number hand out no closure. -/
theorem onNumber_silent (name : String) (onInt : Int64 → Int64)
    (onFloat : Float → Float) :
    HostAction.Silent (onNumber name onInt onFloat) := by
  apply silent_of_isPlain
  intro arguments console v hv
  obtain ⟨w, hw⟩ := argument_eq_value hv
  split at hw <;> cases hw <;> rfl

/-- Functions of two numbers hand out no closure. -/
theorem onNumbers_silent (name : String) (onInts : Int64 → Int64 → Int64)
    (onFloats : Float → Float → Float) :
    HostAction.Silent (onNumbers name onInts onFloats) := by
  apply silent_of_isPlain
  intro arguments console v hv
  obtain ⟨first, hfirst⟩ := argument_eq_value hv
  obtain ⟨second, hsecond⟩ := argument_eq_value hfirst
  split at hsecond
  · cases hsecond
    rfl
  · split at hsecond <;> cases hsecond
    rfl

/-- The square root hands out no closure. -/
theorem squareRoot_silent : HostAction.Silent squareRoot := by
  apply silent_of_isPlain
  intro arguments console v hv
  obtain ⟨w, hw⟩ := argument_eq_value hv
  split at hw
  · cases hw
  · split at hw <;> cases hw
    rfl

end Host

/-- No function of the standard library hands out a closure. -/
theorem Registry.standard_silent : standard.Silent where
  functions := by
    simp only [standard, List.forall_mem_cons]
    exact ⟨Host.print_silent, Host.quit_silent, Host.typeOf_silent, by simp⟩
  members := by
    simp only [standard, Host.math, List.forall_mem_cons]
    refine ⟨⟨?_, ?_, ?_, Host.squareRoot_silent, ?_, ?_, by simp⟩, by simp⟩
    · exact Host.onNumber_silent _ _ _
    · exact Host.onNumber_silent _ _ _
    · exact Host.onNumber_silent _ _ _
    · exact Host.onNumbers_silent _ _ _
    · exact Host.onNumbers_silent _ _ _
  values := by
    simp only [standard, Host.math, List.forall_mem_cons]
    refine ⟨⟨?_, by simp⟩, by simp⟩
    intro f hf
    cases hf

/-- A script that is run with the standard functions never leaves the sound
machines. -/
theorem Interpreter.runScript_sound (limits : Limits) (fuel : Nat)
    (parser : ParseState) :
    ((Registry.standard.install (new limits)).2.runScript fuel
      parser).interpreter.Sound :=
  runUpTo_sound fuel _ _ (Registry.install_sound Registry.standard_silent
    (new_sound limits))

end ScriptLang
