import ScriptLang.Proofs.Eval.Accounting
import ScriptLang.Proofs.Eval.Limits

/-!
# The limit on calls

The limit on calls in progress is read in one place, right before a closure is
entered, and there it is only compared with the number of calls.  A run that is
refused a call fails with a fault of its own, which nothing but the end of the
statement stops.  So a run that leaves no such fault has passed every comparison,
and passes it with a higher limit as well: the two runs do the same
(`Interpreter.raised_limit_unnoticed`).

`Eval.Follows` compares two computations on the same machine.  Where the first one
is refused a call, it says nothing of the second.
-/

namespace ScriptLang

namespace Eval

/-- A computation was refused a call. -/
def Refused (r : Outcome α × Machine) : Prop :=
  ∃ limit m, r = (.failed (.callDepth limit), m)

/-- The second computation does what the first does, unless the first is refused a
call. -/
def Follows (p p' : Eval α) : Prop := ∀ m, Refused (p m) ∨ p' m = p m

/-- A computation that ends before its limit does the same under a larger one. -/
theorem Outlasted.follows {p p' : Eval α}
    (h : p.Outlasted .calls p') : p.Follows p' := by
  intro m
  rcases h m with hhits | heq
  · refine .inl ?_
    generalize p m = r at hhits
    obtain ⟨outcome, m₁⟩ := r
    cases hhits with
    | calls limit => exact ⟨limit, m₁, rfl⟩
  · exact .inr heq

/-- A statement that meets no limit does the same under a larger one. -/
theorem execute_follows {g : Setting} {limit : Nat}
    (hlimit : g.maxCallDepth ≤ limit) (fuel : Nat) (s : Stmt) :
    (execute g fuel s).Follows (execute (g.withLimit limit) fuel s) := by
  have hev : ∀ e, (evaluate g fuel e).Outlasted .calls
      (evaluate (g.withLimit limit) fuel e) :=
    evaluate_outlasted (.inr ⟨rfl, hlimit⟩) (.inl rfl)
  exact (perform_outlasted hev g limit s.action).follows

end Eval

/-! ## Runs -/

namespace Interpreter

variable {i : Interpreter} {limit : Nat}

/-- An interpreter with another limit on calls. -/
def withLimit (limit : Nat) (i : Interpreter) : Interpreter :=
  { i with setting := i.setting.withLimit limit }

/-- No statement has failed for a call too many. -/
def Unrefused (i : Interpreter) : Prop :=
  ∀ located ∈ i.faults, ∀ limit, located.what ≠ .callDepth limit

/-- Faults that have been noted stay noted. -/
theorem faults_run_of_mem {located : Located Fault} (h : located ∈ i.faults)
    (fuel : Nat) (s : Stmt) :
    located ∈ (i.run fuel s).2.faults := by
  rw [run_faults]
  split
  · exact Array.mem_push_of_mem _ h
  · exact h

/-- A statement that is not refused a call runs in the same way with a higher
limit. -/
theorem run_withLimit (hlimit : i.setting.maxCallDepth ≤ limit) (fuel : Nat)
    (s : Stmt) (h : (i.run fuel s).2.Unrefused) :
    (i.withLimit limit).run fuel s =
      ((i.run fuel s).1, (i.run fuel s).2.withLimit limit) := by
  rcases Eval.execute_follows hlimit fuel s
    i.machine with ⟨refused, m, hrefused⟩ | heq
  · refine absurd rfl (h ⟨.callDepth refused, s.span.start⟩ ?_ refused)
    unfold run
    rw [hrefused]
    exact Array.mem_push_self
  · change execute (i.withLimit limit).setting fuel s (i.withLimit limit).machine =
      _ at heq
    unfold run
    rw [heq]
    dsimp only
    split <;> rfl

/-- Faults stay where they are until the end of a run. -/
theorem Unrefused.of_runUpTo {fuel count : Nat} {p : Progress ParseState}
    (h : (runUpTo fuel count p).interpreter.Unrefused) :
    p.interpreter.Unrefused := by
  intro located hlocated
  apply h located
  exact runUpTo_induction (I := fun i => located ∈ i.faults)
    (fun s _ i hi => faults_run_of_mem hi fuel s)
    hlocated

/-- A script of which no statement is refused a call runs in the same way with a
higher limit. -/
theorem runUpTo_withLimit {fuel count : Nat} {p : Progress ParseState}
    (hlimit : p.interpreter.setting.maxCallDepth ≤ limit)
    (h : (runUpTo fuel count p).interpreter.Unrefused) :
    runUpTo fuel count { p with interpreter := p.interpreter.withLimit limit } =
      { runUpTo fuel count p with
        interpreter := (runUpTo fuel count p).interpreter.withLimit limit } := by
  induction count generalizing p with
  | zero => rfl
  | succ count ih =>
      obtain ⟨i, parser, stats, complete⟩ := p
      have hquit : (i.withLimit limit).shouldQuit = i.shouldQuit := rfl
      unfold runUpTo at h ⊢
      dsimp only at h ⊢
      rw [hquit]
      split at h
      · rename_i hstop
        rw [if_pos hstop, if_pos hstop]
      · rename_i hgo
        rw [if_neg hgo, if_neg hgo]
        split at h
        · rfl
        · rename_i statement parser' hnext
          have hsetting := run_setting fuel statement i
          have hsame := run_withLimit hlimit fuel statement
          split at h <;> rename_i hrun <;> rw [hrun] at hsetting hsame
          · rw [hsame h.of_runUpTo]
            exact ih (p := ⟨_, parser', _, complete⟩) (by rwa [hsetting]) h
          · rw [hsame h.of_runUpTo]
            exact ih (p := ⟨_, parser', _, complete⟩) (by rwa [hsetting]) h
          · rw [hsame h]
        · exact ih (p := ⟨i, _, _, complete⟩) hlimit h

end Interpreter

/-! ## Fresh interpreters -/

namespace Registry

open Interpreter

/-- Installing functions does not depend on the limit on calls. -/
theorem installFunctions_withLimit (limit : Nat) (functions : List HostFunction)
    (i : Interpreter) :
    installFunctions functions (i.withLimit limit) =
      ((installFunctions functions i).1,
        (installFunctions functions i).2.withLimit limit) := by
  induction functions generalizing i with
  | nil => rfl
  | cons f rest ih =>
      unfold installFunctions
      dsimp only
      have hdefine : ∀ v,
        ((i.withLimit limit).addNative f.name f.arity f.action).2.defineGlobal
        f.name v =
          (((i.addNative f.name f.arity f.action).2.defineGlobal f.name v).1,
            ((i.addNative f.name f.arity f.action).2.defineGlobal f.name
              v).2.withLimit limit) := fun _ => rfl
      have hnative : ((i.withLimit limit).addNative f.name f.arity f.action).1 =
          (i.addNative f.name f.arity f.action).1 := rfl
      rw [hnative, hdefine]
      obtain ⟨result, j⟩ :=
        (i.addNative f.name f.arity f.action).2.defineGlobal f.name
        (.native (i.addNative f.name f.arity f.action).1)
      cases result with
      | ok => exact ih j
      | error fault => rfl

/-- Adding members to a namespace does not depend on the limit on calls. -/
theorem addMembers_withLimit (limit : Nat) (functions : List HostFunction)
    (i : Interpreter) :
    addMembers functions (i.withLimit limit) =
      ((addMembers functions i).1, (addMembers functions i).2.withLimit limit) := by
  induction functions generalizing i with
  | nil => rfl
  | cons f rest ih =>
      have hrest := ih (i.addNative f.name f.arity f.action).2
      have hadded : ((i.withLimit limit).addNative f.name f.arity f.action) =
          ((i.addNative f.name f.arity f.action).1,
            (i.addNative f.name f.arity f.action).2.withLimit limit) := rfl
      simp only [addMembers, hadded, hrest]

/-- Installing a namespace does not depend on the limit on calls. -/
theorem installNamespace_withLimit (limit : Nat) (space : HostNamespace)
    (i : Interpreter) :
    installNamespace space (i.withLimit limit) =
      (installNamespace space i).withLimit limit := by
  have hfresh : (i.withLimit limit).fresh =
    (i.fresh.1, i.fresh.2.withLimit limit) := rfl
  simp only [installNamespace, hfresh, addMembers_withLimit]
  rfl

/-- Nothing that is installed depends on the limit. -/
theorem install_withLimit (limit : Nat) (r : Registry) (i : Interpreter) :
    (r.install (i.withLimit limit)).2 = (r.install i).2.withLimit limit := by
  have hspaces : ∀ (spaces : List HostNamespace) (i : Interpreter),
      spaces.foldl (fun i space => installNamespace space i) (i.withLimit limit) =
        (spaces.foldl (fun i space => installNamespace space i) i).withLimit
          limit := by
    intro spaces
    induction spaces with
    | nil => exact fun _ => rfl
    | cons space rest ih =>
        intro i
        rw [List.foldl_cons, List.foldl_cons, installNamespace_withLimit, ih]
  unfold install
  rw [installFunctions_withLimit]
  obtain ⟨result, j⟩ := installFunctions r.sorted i
  cases result with
  | ok => exact hspaces r.namespaces j
  | error fault => rfl

end Registry

/-! ## Raising the limit -/

namespace Interpreter

/-- A script that runs to its end without a call too many, on a fresh interpreter,
does the same with any higher limit on calls: it runs to its end, with the same
output, counts and faults, and leaves the same names bound to the same values. -/
theorem raised_limit_unnoticed (r : Registry) (lexemeLimit : Nat) (source : String)
    (fuel : Nat) {limit limit' : Nat} (hlimit : limit ≤ limit') :
    let ran (limit : Nat) :=
      (r.install (new ⟨limit⟩)).2.runScript fuel
        (ParseState.ofText lexemeLimit source)
    (ran limit).complete = true →
    (∀ located ∈ (ran limit).interpreter.faults, ∀ exceeded,
      located.what ≠ .callDepth exceeded) →
      (ran limit').complete = true ∧
        (ran limit').interpreter.machine.console =
          (ran limit).interpreter.machine.console ∧
        (ran limit').stats = (ran limit).stats ∧
        (ran limit').interpreter.faults = (ran limit).interpreter.faults ∧
        ∀ name, (ran limit').interpreter.global? name =
            (ran limit).interpreter.global? name := by
  intro ran hcomplete hfaults
  have hfresh : (r.install (new ⟨limit'⟩)).2 =
      (r.install (new ⟨limit⟩)).2.withLimit limit' :=
    r.install_withLimit limit' (new ⟨limit⟩)
  have hinstalled : (r.install (new ⟨limit⟩)).2.setting.maxCallDepth = limit :=
    congrArg (fun i => i.setting.maxCallDepth)
      (r.install_withLimit limit (new ⟨limit⟩))
  have hran : ran limit' = { ran limit with
      interpreter := (ran limit).interpreter.withLimit limit' } := by
    simp only [ran, hfresh]
    exact runUpTo_withLimit (by rwa [hinstalled]) hfaults
  rw [hran]
  exact ⟨hcomplete, rfl, rfl, rfl, fun _ => rfl⟩

/-- Three calls in progress are just what this script needs before it fails for
another reason. -/
def countdown : String := "init f = functi(n) if (n > 1) f(n - 1) else 1 / 0; f(3);"

/-- With a limit of two the innermost call is refused, and a limit above three
changes nothing. -/
theorem countdown_limits :
    let ran (limit : Nat) :=
      (Registry.standard.install (new ⟨limit⟩)).2.runScript 20
        (ParseState.ofText 4096 countdown)
    (ran 2).interpreter.faults.toList.map Located.what = [.callDepth 2] ∧
      (ran 3).interpreter.faults.toList.map Located.what = [.zeroDivision] ∧
      (ran 128).complete = true ∧ (ran 128).stats = (ran 3).stats ∧
      (ran 128).interpreter.faults = (ran 3).interpreter.faults := by
  intro ran
  have hrefused : (ran 2).interpreter.faults.toList.map Located.what =
      [.callDepth 2] := by
    unfold ran Registry.install
    rw [Registry.standard_sorted]
    decide +kernel
  have hran : ((ran 3).complete,
    (ran 3).interpreter.faults.toList.map Located.what) =
      (true, [.zeroDivision]) := by
    unfold ran Registry.install
    rw [Registry.standard_sorted]
    decide +kernel
  obtain ⟨hcomplete, hfaults⟩ := Prod.mk.inj hran
  have hunrefused : ∀ located ∈ (ran 3).interpreter.faults, ∀ exceeded,
      located.what ≠ .callDepth exceeded := by
    intro located hlocated exceeded heq
    have hmem :=
      List.mem_map_of_mem (f := Located.what) (Array.mem_toList_iff.mpr hlocated)
    rw [hfaults, heq] at hmem
    cases List.mem_singleton.mp hmem
  obtain ⟨hcomplete', _, hstats, hsame, _⟩ :=
    raised_limit_unnoticed Registry.standard 4096 countdown 20
    (show 3 ≤ 128 by decide) hcomplete hunrefused
  exact ⟨hrefused, hfaults, hcomplete', hstats, hsame⟩

end Interpreter

end ScriptLang
