import ScriptLang.Proofs.Eval.Agreement
import ScriptLang.Proofs.Eval.Closures
import ScriptLang.Proofs.Eval.Signals

/-!
# What evaluation restores

An expression goes back to the stack, the frames and the number of calls that it
started with, on every exit.  In between it makes calls, but never more at a time
than the limit allows.  To say so without a trace, `evaluateWithin` hands everything
that is to be evaluated beyond the limit to some other evaluator: that other
evaluator is never asked, for it makes no difference which one it is.

A statement runs in the innermost frame of its scope.  It may add names to that
frame, and may put a copy in its place (`Machine.Widened`).  So the stack has the
same depth after a statement as before it.
-/

namespace ScriptLang

/-! ## The limit on calls -/

/-- Evaluates an expression in at most `fuel` steps, but hands what is to be
evaluated with more calls in progress than allowed to another evaluator. -/
def evaluateWithin (g : Setting) (other : Expr → Eval Value) :
    Nat → Expr → Eval Value
  | 0, _ => Eval.stop .exhausted
  | fuel + 1, e =>
    Eval.layer (fun e m =>
      if m.callDepth ≤ g.maxCallDepth then evaluateWithin g other fuel e m
      else other e m) g fuel e

/-- Runs of the same tree on the same machine, with no more calls in progress than
allowed. -/
def limited (g : Setting) : Comparison where
  lenient := True
  level _ calls := calls ≤ g.maxCallDepth
  moves φ := φ = id
  trusts _ := True

/-- A value is like itself. -/
theorem limited_refl (g : Setting) (v : Value) : (limited g).Alike v v :=
  .refl rfl trivial (fun _ => trivial) v

/-- Evaluation that looks at the limit before each call, against one that does
not. -/
theorem limited_laws (g : Setting) : (limited g).Laws g where
  level_enter h := h
  level_call _ _ h := h
  grounded _ := .inl trivial
  spaces space _ := limited_refl g (.namespace_ space)
  host {f action arguments arguments'} console _ _ _ harguments := by
    have hsame : List.Forall₂ Eq arguments arguments' :=
      harguments.imp fun _ _ h => (h.eq fun _ hφ => hφ).symm
    obtain rfl : arguments = arguments' := List.forall₂_eq_eq_eq ▸ hsame
    refine ⟨?_, rfl⟩
    cases (action arguments console).1 with
    | value v => exact .value (limited_refl g v)
    | fault fault => exact .fault (.inl trivial)
    | crash words => exact .crash trivial

/-- Evaluation enters no call beyond the limit, whatever would happen there. -/
theorem evaluateWithin_agree (g : Setting) (other : Expr → Eval Value)
    (fuel : Nat) :
    (limited g).Agree (evaluate g fuel) (evaluateWithin g other fuel) := by
  induction fuel with
  | zero => exact fun _ _ hm => hm.ends .exhausted
  | succ fuel ih =>
      refine Comparison.layer_agree (fun {φ e m m'} hφ hfit hm => ?_)
        (limited_laws g) fuel
      have hdepth : m'.callDepth ≤ g.maxCallDepth := by
        rw [hm.eq_with]
        exact hm.level
      rw [if_pos hdepth]
      exact ih hφ hfit hm

/-- Nothing is evaluated beyond the limit. -/
theorem evaluateWithin_eq {g : Setting} {m : Machine}
    (hm : m.callDepth ≤ g.maxCallDepth) (other : Expr → Eval Value) (fuel : Nat)
    (e : Expr) :
    evaluateWithin g other fuel e m = evaluate g fuel e m := by
  have hmachines : (limited g).Machines m m :=
    ⟨rfl, ⟨rfl, rfl, rfl, fun _ => limited_refl g _, fun _ => rfl⟩, hm⟩
  have hat :=
    evaluateWithin_agree g other fuel (φ := id) (e := e) rfl
      (.inl trivial) hmachines
  rw [Expr.moved_id] at hat
  exact hat.eq fun _ hφ => hφ

/-- A call is refused, and then changes nothing, or is entered within the limit. -/
theorem Eval.callClosure_cases (ev : Expr → Eval Value) (g : Setting) (f : Closure)
    (arguments : List Value) (m : Machine) :
    (∃ fault, callClosure ev g f arguments m = (.failed fault, m)) ∨
      (m.enterCall f.captured).callDepth ≤ g.maxCallDepth ∧
        callClosure ev g f arguments m = inCall f.captured (absorbing do
          bindParameters f.definition.parameters arguments
          ev f.definition.body) m := by
  unfold callClosure
  dsimp only
  by_cases hcount : f.definition.parameters.length ≠ arguments.length
  · rw [if_pos hcount]
    exact .inl ⟨_, rfl⟩
  · rw [if_neg hcount]
    by_cases hlimit : g.maxCallDepth ≤ m.callDepth
    · rw [if_pos hlimit]
      exact .inl ⟨_, rfl⟩
    · rw [if_neg hlimit]
      have hdepth : (m.enterCall f.captured).callDepth = m.callDepth + 1 := rfl
      exact .inr ⟨by omega, rfl⟩

/-! ## Statements -/

/-- The stack is the same as before, but for a copy that may be in the place of the
innermost frame. -/
def Machine.Copied (m m' : Machine) : Prop :=
  m'.stack = m.stack ∨ ∃ top outer copy, m.stack = top :: outer ∧
    m'.stack = copy :: outer ∧
    m'.store.frame copy = m'.store.frame top

/-- What a statement does to the scope it runs in: of the frames that were there it
changes only the innermost one, where it may bind further names, and it may put a
new copy in its place. -/
structure Machine.Widened (m m' : Machine) : Prop where
  callDepth_eq : m'.callDepth = m.callDepth
  frame_eq : ∀ i, i < m.store.frames.size → m.stack.head? ≠ some i →
    m'.store.frame i = m.store.frame i
  kind_eq : ∀ i, i < m.store.frames.size →
    (m'.store.frame i).kind = (m.store.frame i).kind
  find?_eq : ∀ i, i < m.store.frames.size → ∀ n cell,
    (m.store.frame i).find? n = some cell → (m'.store.frame i).find? n = some cell
  stack_eq : m'.stack = m.stack ∨ m.Renewed m'
  copied : m.Copied m'

namespace Eval

variable {m : Machine}

/-- An operation that does not touch the machine keeps the visible frames. -/
theorem lift_kept (result : Except Fault α) (m : Machine) :
    m.Kept (lift result m).2 := by
  rw [lift_machine]
  exact .refl m

/-- Asking for a truth keeps the visible frames. -/
theorem truth_kept (v : Value) (m : Machine) : m.Kept (truth v m).2 := by
  unfold truth
  cases v.bool? <;> exact .refl m

/-- What comes first leaves the stack alone, so that only the rest can replace a
frame. -/
theorem copied_bind {p : Eval α} {next : α → Eval β}
    (hgiven : m.store.Given m.stack)
    (hsize : m.store.frames.size ≤ (p m).2.store.frames.size)
    (hstack : (p m).2.stack = m.stack)
    (hnext : ∀ a (m₁ : Machine), m₁.store.Given m₁.stack →
      m₁.Copied (next a m₁).2) :
    m.Copied ((p >>= next) m).2 := by
  rcases bind_cases p next m with ⟨a, m₁, hrun, hbind⟩ | ⟨hmachine, _⟩
  · rw [hrun] at hsize hstack
    dsimp only at hsize hstack
    have hgiven₁ : m₁.store.Given m₁.stack := by
      rw [hstack]
      exact hgiven.mono hsize
    have hcopied := hnext a m₁ hgiven₁
    unfold Machine.Copied at hcopied ⊢
    rwa [hbind, ← hstack]
  · rw [hmachine]
    exact .inl hstack

/-- A copy of the innermost frame, behind what keeps the visible frames. -/
theorem copied_bind_kept {p : Eval α} {next : α → Eval β}
    (hgiven : m.store.Given m.stack) (hp : m.Kept (p m).2)
    (hnext : ∀ a (m₁ : Machine), m₁.store.Given m₁.stack →
      m₁.Copied (next a m₁).2) :
    m.Copied ((p >>= next) m).2 :=
  copied_bind hgiven hp.grows.size_le hp.stack_eq hnext

/-- What leaves the stack as it is, twice. -/
theorem stack_bind {p : Eval α} {next : α → Eval β} (hp : (p m).2.stack = m.stack)
    (hnext : ∀ a m₁, (next a m₁).2.stack = m₁.stack) :
    ((p >>= next) m).2.stack = m.stack := by
  rcases bind_cases p next m with ⟨a, m₁, hrun, hbind⟩ | ⟨hmachine, _⟩
  · rw [hrun] at hp
    rw [hbind, hnext a m₁]
    exact hp
  · rw [hmachine, hp]

/-- Declaring names leaves the stack as it is. -/
theorem stack_declareAll (g : Setting) (fuel : Nat) (bindings : List Binding)
    (m : Machine) :
    (declareAll (evaluate g fuel) bindings m).2.stack = m.stack := by
  induction bindings generalizing m with
  | nil => rfl
  | cons b rest ih =>
      apply stack_bind (optional_kept g fuel .null b.value m).stack_eq
      intro v m₁
      apply stack_bind
      · rw [declare_machine]
        rfl
      · exact fun _ m₂ => ih m₂

/-- Settling replaces the innermost frame by a copy of it. -/
theorem settle_copied (hgiven : m.store.Given m.stack) :
    m.Copied ((do settle; return .null : Eval Value) m).2 := by
  rcases m.settle_cases with ⟨_, hsettle⟩ | ⟨top, outer, hstack, hsettle⟩
  · have hrun : ((do settle; return .null : Eval Value) m).2 = m := by
      show (andThen settle (fun _ => yield Value.null) m).2 = m
      unfold andThen
      rw [hsettle]
    rw [hrun]
    exact .inl rfl
  · have hrun : ((do settle; return .null : Eval Value) m).2 = { m with
        stack := m.store.frames.size :: outer
        store := (m.store.addFrame (m.store.frame top)).2 } := by
      show (andThen settle (fun _ => yield Value.null) m).2 = _
      unfold andThen
      rw [hsettle]
      rfl
    rw [hrun]
    have htop : top < m.store.frames.size :=
      hgiven top (hstack ▸ List.mem_cons_self)
    refine .inr ⟨top, outer, m.store.frames.size, hstack, rfl, ?_⟩
    rw [Store.frame_addFrame_self, Store.frame_addFrame_of_lt _ htop]

/-- An action copies the innermost frame at most. -/
theorem perform_copied (g : Setting) (fuel : Nat) (a : Action)
    (hgiven : m.store.Given m.stack) :
    m.Copied (perform (evaluate g fuel) g a m).2 := by
  cases a with
  | pull path =>
      apply copied_bind_kept hgiven (lift_kept _ m)
      rintro ⟨name, v⟩ m₁ hgiven₁
      have hdeclare := declare_machine name v false m₁
      apply copied_bind hgiven₁
      · rw [hdeclare]
        exact (m₁.extended_declare name v false).size_le
      · rw [hdeclare]
        rfl
      · exact fun _ m₂ hgiven₂ => settle_copied hgiven₂
  | declare bindings =>
      have hextended :=
        (Discipline.declareAll_at ((scoping g).evaluate_disciplined fuel) bindings
        (m := m) trivial).moves
      apply copied_bind hgiven hextended.size_le
        (stack_declareAll g fuel bindings m)
      exact fun _ m₁ hgiven₁ => settle_copied hgiven₁
  | break_ => exact copied_bind_kept hgiven (lift_kept _ m) fun _ _ _ => .inl rfl
  | breakIf condition =>
      apply copied_bind_kept hgiven (evaluate_kept g fuel condition m)
      intro v m₁ hgiven₁
      apply copied_bind_kept hgiven₁ (truth_kept v m₁)
      intro b m₂ hgiven₂
      cases b with
      | true =>
          exact copied_bind_kept hgiven₂ (lift_kept _ m₂) fun _ _ _ => .inl rfl
      | false => exact .inl rfl
  | return_ value =>
      apply copied_bind_kept hgiven (lift_kept _ m)
      intro _ m₁ hgiven₁
      exact copied_bind_kept hgiven₁ (optional_kept g fuel .null value m₁)
        fun _ _ _ => .inl rfl
  | evaluate e => exact .inl (evaluate_kept g fuel e m).stack_eq

end Eval

/-- Names are added to the innermost frame only, and none that was there is bound
again. -/
theorem execute_widened (g : Setting) (fuel : Nat) (s : Stmt) {m : Machine}
    (hgiven : m.store.Given m.stack) : m.Widened (execute g fuel s m).2 := by
  obtain ⟨hextended, hsteady⟩ :=
    ((signals g).execute_disciplined fuel s (m := m) trivial).moves
  refine ⟨hextended.callDepth_eq, hextended.frame_eq, hsteady.kind_eq, ?_,
    hextended.stack_eq,
    Eval.perform_copied g fuel s.action hgiven⟩
  intro i hi n cell hfound
  by_cases htop : m.stack.head? = some i
  · obtain ⟨outer, hstack⟩ : ∃ outer, m.stack = i :: outer :=
      List.head?_eq_some_iff.mp htop
    obtain ⟨names, _, _, hdeclared⟩ :=
      Eval.perform_declares g fuel s.action hstack hi
    have hn : n ∉ names := by
      intro hn
      rw [hdeclared.unbound n hn] at hfound
      cases hfound
    exact (hdeclared.others n hn).trans hfound
  · rw [hextended.frame_eq i hi htop]
    exact hfound

/-- Evaluation restores the scope chain on every exit.  An expression keeps the
stack, the frames and the number of calls, and evaluates nothing with more calls in
progress than allowed; a call is refused or entered within the limit.  A statement
at most widens the innermost frame of its scope, so that after it the stack is as
deep as before and no call is in progress.

Functions of the host take part as procedures that touch no frame and no cell
(`HostProcedure.detached`). -/
theorem evaluation_restores (fuel : Nat) :
    (∀ (g : Setting) (e : Expr) (m : Machine), m.callDepth ≤ g.maxCallDepth →
      m.Kept (evaluate g fuel e m).2 ∧
        ∀ other, evaluateWithin g other fuel e m = evaluate g fuel e m) ∧
    (∀ (g : Setting) (f : Closure) (arguments : List Value) (m : Machine),
      (∃ fault, Eval.callClosure (evaluate g fuel) g f arguments m =
        (.failed fault, m)) ∨
        (m.enterCall f.captured).callDepth ≤ g.maxCallDepth ∧
          Eval.callClosure (evaluate g fuel) g f arguments m =
            Eval.inCall f.captured (Eval.absorbing do
              Eval.bindParameters f.definition.parameters arguments
              evaluate g fuel f.definition.body) m) ∧
    (∀ (g : Setting) (s : Stmt) (m : Machine), m.store.Given m.stack →
      m.Widened (execute g fuel s m).2) ∧
    (∀ (i : Interpreter) (s : Stmt),
      (i.run fuel s).2.machine.stack =
        (execute i.setting fuel s i.machine).2.stack ∧
      (i.run fuel s).2.machine.stack.length = i.machine.stack.length ∧
      (i.run fuel s).2.machine.callDepth = 0) := by
  refine ⟨?_, ?_, ?_, ?_⟩
  · intro g e m hm
    exact ⟨evaluate_kept g fuel e m, fun other => evaluateWithin_eq hm other fuel e⟩
  · intro g f arguments m
    exact Eval.callClosure_cases (evaluate g fuel) g f arguments m
  · intro g s m hgiven
    exact execute_widened g fuel s hgiven
  · intro i s
    have hextended := execute_extended i.setting fuel s i.machine
    rw [Interpreter.run_machine, Interpreter.reset_stack hextended]
    exact ⟨rfl, hextended.length_eq, rfl⟩

/-- The expression `(functi() (functi() 1)())()`, a call inside a call. -/
def nestedCall : Expr :=
  let inner : Expr :=
    ⟨.call ⟨.function ⟨[], ⟨.literal (.integer 1), default⟩⟩, default⟩ [], default⟩
  ⟨.call ⟨.function ⟨[], inner⟩, default⟩ [], default⟩

/-- Where only one call may be in progress the inner call is refused.  Nothing is
left behind, no matter what would evaluate the body of the inner function, and a
declaration that ends so is over as well. -/
theorem nestedCall_restores :
    let i := Interpreter.new ⟨1⟩
    let declaration : Stmt :=
      ⟨.declare [⟨"x", false, some nestedCall, default⟩], true, default⟩
    (evaluate i.setting 4 nestedCall i.machine).1 = .failed (.callDepth 1) ∧
      i.machine.Kept (evaluate i.setting 4 nestedCall i.machine).2 ∧
      (∀ other, evaluateWithin i.setting other 4 nestedCall i.machine =
        evaluate i.setting 4 nestedCall i.machine) ∧
      i.machine.Widened (execute i.setting 4 declaration i.machine).2 ∧
      (i.run 4 declaration).2.machine.callDepth = 0 := by
  intro i declaration
  obtain ⟨hexpressions, _, hstatements, hruns⟩ := evaluation_restores 4
  obtain ⟨hkept, hwithin⟩ :=
    hexpressions i.setting nestedCall i.machine (Nat.zero_le _)
  have hgiven := (Interpreter.new_topLevel ⟨1⟩).given
  exact ⟨rfl, hkept, hwithin, hstatements i.setting declaration i.machine hgiven,
    (hruns i declaration).2.2⟩

end ScriptLang
