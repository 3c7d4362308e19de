import ScriptLang.Proofs.Eval.Discipline
import ScriptLang.Proofs.Scope.Frames

/-!
# What evaluation does to frames

An expression leaves the stack and all frames as they are (`Machine.Kept`): what it
declares, it declares in frames of its own.  A statement may in addition change the
names of the innermost frame, and may put a new frame in its place
(`Machine.Extended`).  Both hold on every exit, also on the way out of a loop or a
function, after a fault, and after a crash of a host function.

`scoping` is the discipline that says so.
-/

namespace ScriptLang

namespace Machine

/-- What an expression does to a machine: it goes back to the stack and the number
of calls that it started with, and it changes no frame that was there. -/
structure Kept (m m' : Machine) : Prop where
  stack_eq : m'.stack = m.stack
  callDepth_eq : m'.callDepth = m.callDepth
  grows : m.store.Grows m'.store

theorem Kept.refl (m : Machine) : m.Kept m := ⟨rfl, rfl, Store.Grows.refl _⟩

/-- What is kept twice is kept. -/
theorem Kept.trans {a b c : Machine} (hab : a.Kept b)
    (hbc : b.Kept c) : a.Kept c where
  stack_eq := hbc.stack_eq.trans hab.stack_eq
  callDepth_eq := hbc.callDepth_eq.trans hab.callDepth_eq
  grows := hab.grows.trans hbc.grows

/-- A name means the same variable after an expression as before it. -/
theorem Kept.resolve?_eq {m m' : Machine} (h : m.Kept m')
    (hgiven : m.store.Given m.stack) (name : String) :
    m'.store.resolve? name m'.stack = m.store.resolve? name m.stack := by
  rw [h.stack_eq]
  apply Store.resolve?_congr
  intro i hi
  rw [h.grows.frame_eq i (hgiven i hi)]

/-- The stack of one machine is that of another, but for a new frame in place of the
innermost one. -/
def Renewed (m m' : Machine) : Prop :=
  ∃ top outer copy, m.stack = top :: outer ∧ m'.stack = copy :: outer ∧
    m.store.frames.size ≤ copy

/-- What a statement does to a machine: of the frames that were there it changes
only the innermost one, and it may put a new frame in its place. -/
structure Extended (m m' : Machine) : Prop where
  stack_eq : m'.stack = m.stack ∨ m.Renewed m'
  callDepth_eq : m'.callDepth = m.callDepth
  size_le : m.store.frames.size ≤ m'.store.frames.size
  cells_le : m.store.cells.size ≤ m'.store.cells.size
  frame_eq : ∀ i, i < m.store.frames.size → m.stack.head? ≠ some i →
    m'.store.frame i = m.store.frame i

/-- To keep the visible frames is to extend them by nothing. -/
theorem Kept.extended {m m' : Machine} (h : m.Kept m') : m.Extended m' where
  stack_eq := .inl h.stack_eq
  callDepth_eq := h.callDepth_eq
  size_le := h.grows.size_le
  cells_le := h.grows.cells_le
  frame_eq i hi _ := h.grows.frame_eq i hi

/-- The frame that a statement leaves innermost is the one it found there, or a new
one. -/
theorem Extended.head? {m m' : Machine} (h : m.Extended m') {i : Nat}
    (hi : i < m.store.frames.size) (htop : m.stack.head? ≠ some i) :
    m'.stack.head? ≠ some i := by
  rcases h.stack_eq with hstack | ⟨top, outer, copy, _, hstack, hcopy⟩
  · rw [hstack]
    exact htop
  · rw [hstack]
    intro hcontra
    cases hcontra
    exact Nat.not_lt.mpr hcopy hi

/-- A statement leaves the stack as deep as it was. -/
theorem Extended.length_eq {m m' : Machine} (h : m.Extended m') :
    m'.stack.length = m.stack.length := by
  rcases h.stack_eq with hstack | ⟨top, outer, copy, htop, hstack, _⟩
  · rw [hstack]
  · rw [hstack, htop]
    rfl

/-- What is extended twice is extended. -/
theorem Extended.trans {a b c : Machine} (hab : a.Extended b)
    (hbc : b.Extended c) : a.Extended c where
  stack_eq := by
    rcases hbc.stack_eq with hstack | ⟨top, outer, copy, htop, hstack, hcopy⟩
    · rcases hab.stack_eq with hstack' | ⟨top, outer, copy, htop, hstack', hcopy⟩
      · exact .inl (hstack.trans hstack')
      · exact .inr ⟨top, outer, copy, htop, hstack.trans hstack', hcopy⟩
    · have hcopy' := Nat.le_trans hab.size_le hcopy
      rcases hab.stack_eq with hstack' | ⟨top', outer', copy', htop', hstack', _⟩
      · exact .inr ⟨top, outer, copy, hstack' ▸ htop, hstack, hcopy'⟩
      · obtain ⟨_, rfl⟩ : copy' = top ∧ outer' = outer := by
          simpa [hstack'] using htop
        exact .inr ⟨top', outer', copy, htop', hstack, hcopy'⟩
  callDepth_eq := hbc.callDepth_eq.trans hab.callDepth_eq
  size_le := Nat.le_trans hab.size_le hbc.size_le
  cells_le := Nat.le_trans hab.cells_le hbc.cells_le
  frame_eq i hi htop := by
    rw [hbc.frame_eq i (Nat.lt_of_lt_of_le hi hab.size_le) (hab.head? hi htop),
      hab.frame_eq i hi htop]

/-! ## The primitive operations -/

/-- An operation that was refused has changed nothing. -/
theorem updated_of_eq {operation : Stack → Store → Except Fault Unit × Store}
    {m : Machine} {result : Except Fault Unit} {store : Store}
    (h : operation m.stack m.store = (result, store)) :
    m.updated operation = { m with store } := by
  simp [updated, h]

/-- Assigning changes a variable and no frame. -/
theorem kept_assign (m : Machine) (name : String) (v : Value) :
    m.Kept (m.updated (Store.assign name v)) := by
  rcases Store.assign_cases name v m.stack
    m.store with ⟨fault, hassign⟩ | ⟨index, _, hassign⟩
  · rw [updated_of_eq hassign]
    exact Kept.refl m
  · rw [updated_of_eq hassign]
    exact ⟨rfl, rfl, Store.Grows.of_frames_eq rfl (by simp)⟩

/-- Binding a new name in the innermost frame changes that frame only. -/
theorem extended_bindNew {m : Machine} {top : Nat} {outer : Stack} (name : String)
    (v : Value) (const : Bool) (hstack : m.stack = top :: outer) :
    m.Extended { m with store := m.store.bindNew top name v const } := by
  refine ⟨.inl rfl, rfl, by simp, by simp [Store.bindNew], ?_⟩
  intro i _ htop
  apply Store.frame_bindNew_of_ne m.store name v const
  intro hi
  exact htop (by rw [hstack, hi]; rfl)

/-- What holds of a machine still holds when a name is declared, if it does when a
name that the innermost frame has not is bound there. -/
theorem updated_declare {P : Machine → Prop} {m : Machine} {name : String}
    {v : Value} {const : Bool} (hm : P m)
    (hbind : ∀ top outer, m.stack = top :: outer → (m.store.frame top).find? name =
      none → P { m with store := m.store.bindNew top name v const }) :
    P (m.updated (Store.declare name v const)) := by
  rcases Store.declare_cases name v const m.stack m.store with
    ⟨fault, hdeclare⟩ | ⟨top, outer, hstack, hunbound, hdeclare⟩
  · rw [updated_of_eq hdeclare]
    exact hm
  · rw [updated_of_eq hdeclare]
    exact hbind top outer hstack hunbound

/-- The same for the binding of a parameter, whose name may be there already. -/
theorem updated_override {P : Machine → Prop} {m : Machine} {name : String}
    {v : Value} {const : Bool} (hm : P m)
    (hbind : ∀ top outer, m.stack = top :: outer →
      P { m with store := m.store.bindNew top name v const }) :
    P (m.updated (Store.override name v const)) := by
  rcases Store.override_cases name v const m.stack m.store with
    ⟨fault, hoverride⟩ | ⟨top, outer, hstack, hoverride⟩
  · rw [updated_of_eq hoverride]
    exact hm
  · rw [updated_of_eq hoverride]
    exact hbind top outer hstack

/-- A declaration extends the innermost frame. -/
theorem extended_declare (m : Machine) (name : String) (v : Value) (const : Bool) :
    m.Extended (m.updated (Store.declare name v const)) :=
  updated_declare (P := m.Extended) (Kept.refl m).extended fun _ _ hstack _ =>
    extended_bindNew name v const hstack

/-- A parameter extends the innermost frame. -/
theorem extended_override (m : Machine) (name : String) (v : Value) (const : Bool) :
    m.Extended (m.updated (Store.override name v const)) :=
  updated_override (P := m.Extended) (Kept.refl m).extended fun _ _ hstack =>
    extended_bindNew name v const hstack

/-- Settling fails without a frame, and otherwise puts a copy of the innermost frame
in its place. -/
theorem settle_cases (m : Machine) :
    (m.stack = [] ∧ Eval.settle m = (.failed Store.emptyStack, m)) ∨
      ∃ top outer, m.stack = top :: outer ∧
        Eval.settle m = (.value (), { m with
          stack := m.store.frames.size :: outer
          store := (m.store.addFrame (m.store.frame top)).2 }) := by
  unfold Eval.settle Store.settle
  cases hstack : m.stack with
  | nil =>
      refine .inl ⟨rfl, ?_⟩
      cases m
      cases hstack
      rfl
  | cons top outer => exact .inr ⟨top, outer, rfl, rfl⟩

/-- A copy of the innermost frame extends it. -/
theorem extended_settled (m : Machine) : m.Extended m.settled := by
  unfold settled
  rcases m.settle_cases with ⟨_, hsettle⟩ | ⟨top, outer, hstack, hsettle⟩
  · rw [hsettle]
    exact (Kept.refl m).extended
  · rw [hsettle]
    have hgrows := Store.grows_addFrame (m.store.frame top) m.store
    exact ⟨.inr ⟨top, outer, _, hstack, rfl, Nat.le_refl _⟩, rfl, hgrows.size_le,
      hgrows.cells_le,
      fun i hi _ => hgrows.frame_eq i hi⟩

/-- Leaving a scope drops its frame, whether it is still the one that was entered or
not. -/
theorem kept_leave {m m' : Machine} {kind : FrameKind}
    (h : (m.enter kind).Extended m') :
    m.Kept (m'.leave m.stack.length) := by
  have hsize : (m.enter kind).store.frames.size = m.store.frames.size + 1 :=
    Store.size_addFrame _ _
  refine ⟨?_, h.callDepth_eq, ?_, h.cells_le, ?_⟩
  · have htail : ∃ top, m'.stack = top :: m.stack := by
      rcases h.stack_eq with hstack | ⟨top, outer, copy, htop, hstack, _⟩
      · exact ⟨_, hstack⟩
      · obtain ⟨_, rfl⟩ := List.cons.inj htop
        exact ⟨copy, hstack⟩
    obtain ⟨top, hstack⟩ := htail
    simp [leave, Stack.truncate, hstack]
  · exact Nat.le_trans (by omega) h.size_le
  · intro i hi
    have htop : (m.enter kind).stack.head? ≠ some i := by
      intro hcontra
      exact Nat.ne_of_gt hi (Option.some.inj hcontra)
    show m'.store.frame i = m.store.frame i
    rw [h.frame_eq i (by omega) htop]
    exact Store.frame_addFrame_of_lt _ hi

/-- Leaving a call restores the stack of the caller. -/
theorem kept_leaveCall {m m' : Machine} {captured : Stack}
    (h : (m.enterCall captured).Extended m') :
    m.Kept (m'.leaveCall m.stack) := by
  have hsize : (m.enterCall captured).store.frames.size = m.store.frames.size + 1 :=
    Store.size_addFrame _ _
  refine ⟨rfl, ?_, ?_, h.cells_le, ?_⟩
  · show m'.callDepth - 1 = m.callDepth
    rw [h.callDepth_eq]
    rfl
  · exact Nat.le_trans (by omega) h.size_le
  · intro i hi
    have htop : (m.enterCall captured).stack.head? ≠ some i := by
      intro hcontra
      exact Nat.ne_of_gt hi (Option.some.inj hcontra)
    show m'.store.frame i = m.store.frame i
    rw [h.frame_eq i (by omega) htop]
    exact Store.frame_addFrame_of_lt _ hi

end Machine

/-- Expressions keep the machine, and statements extend it. -/
def scoping (g : Setting) : Discipline g where
  keeps := Machine.Kept
  stays := Machine.Extended
  sound _ := True
  knows _ _ := True
  mayBreak _ := True
  mayReturn _ := True
  keeps_refl := Machine.Kept.refl
  keeps_trans := Machine.Kept.trans
  stays_of_keeps := Machine.Kept.extended
  stays_trans := Machine.Extended.trans
  knows_stays _ _ := trivial
  mayBreak_stays _ _ := trivial
  mayReturn_stays _ _ := trivial
  knows_plain _ _ _ := trivial
  knows_member _ _ := trivial
  knows_space _ _ := trivial
  knows_cell _ _ := trivial
  assign _ _ := ⟨trivial, Machine.kept_assign _ _ _⟩
  close _ _ := ⟨trivial, ⟨rfl, rfl, Store.Grows.refl _⟩, trivial⟩
  host _ _ _ _ := ⟨trivial, ⟨rfl, rfl, Store.Grows.refl _⟩, fun _ _ => trivial⟩
  declare _ _ := ⟨trivial, Machine.extended_declare _ _ _ _⟩
  override _ _ := ⟨trivial, Machine.extended_override _ _ _ _⟩
  settle _ := ⟨trivial, Machine.extended_settled _⟩
  enter _ _ := trivial
  knows_enter _ _ := trivial
  leave _ _ h := ⟨trivial, Machine.kept_leave h⟩
  knows_leave _ _ := trivial
  enterCall _ _ _ := trivial
  knows_enterCall _ _ := trivial
  leaveCall _ _ _ h := ⟨trivial, Machine.kept_leaveCall h⟩
  knows_leaveCall _ _ := trivial
  checkBreak _ _ := trivial
  checkReturn _ _ := trivial
  mayBreak_enter _ := trivial
  mayReturn_enter _ _ := trivial

/-- However evaluation ends, the stack and the frames are those it started with. -/
theorem evaluate_kept (g : Setting) (fuel : Nat) (e : Expr) (m : Machine) :
    m.Kept (evaluate g fuel e m).2 :=
  ((scoping g).evaluate_disciplined fuel e m trivial).moves

/-- However a statement ends, it has at most changed the innermost frame or put a
new one in its place. -/
theorem execute_extended (g : Setting) (fuel : Nat) (s : Stmt) (m : Machine) :
    m.Extended (execute g fuel s m).2 :=
  ((scoping g).execute_disciplined fuel s (m := m) trivial).moves

end ScriptLang
