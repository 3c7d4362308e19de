import ScriptLang.Proofs.Eval.Runs

/-!
# Where signals stop

A `break` or a `return` is refused unless the visible frames hold a loop or a
function for it to leave.  What takes the signal in is not a frame, though: it is
the loop or the call that is running.  The two agree because nothing that runs
inside a scope changes the kinds of the frames of that scope (`Machine.Steady`), and
because only a block lets a signal through to the frames around it.

So a signal always has its construct on the stack: a `break` that leaves a
computation has a loop frame with no function frame inside it, and a `return` has a
function frame.  The frames of a call start with a function frame, so no `break`
ever leaves the body of a function, whatever loops the function was formed in; and
at the top level, where there is a single block frame, no signal leaves a statement.
-/

namespace ScriptLang

namespace Machine

/-- The kinds of the visible frames, innermost first. -/
def kinds (m : Machine) : List FrameKind :=
  m.stack.map fun i => (m.store.frame i).kind

/-- Among the visible frames there is a loop frame with no function frame inside
it. -/
def BreakStops (m : Machine) : Prop :=
  ∃ inner outer, m.kinds = inner ++ .loop :: outer ∧ FrameKind.function ∉ inner

/-- Among the visible frames there is a function frame. -/
def ReturnStops (m : Machine) : Prop := FrameKind.function ∈ m.kinds

variable {m m' : Machine}

/-! ## What is checked -/

/-- Where a break is allowed, a loop stops it. -/
theorem breakStops_of_checkBreak
    (h : m.store.checkBreak m.stack = .ok ()) : m.BreakStops := by
  have hloop : m.store.inLoop m.stack = true := by
    unfold Store.checkBreak at h
    split at h
    · assumption
    · cases h
  unfold BreakStops kinds
  generalize m.stack = stack at hloop
  induction stack with
  | nil => cases hloop
  | cons index outer ih =>
      rw [List.map_cons]
      unfold Store.inLoop at hloop
      cases hkind : (m.store.frame index).kind with
      | loop => exact ⟨[], _, rfl, List.not_mem_nil⟩
      | function => simp [hkind] at hloop
      | block =>
          rw [hkind] at hloop
          obtain ⟨inner, rest, heq, hinner⟩ := ih hloop
          refine ⟨.block :: inner, rest, by rw [heq]; rfl, ?_⟩
          intro hmem
          rcases List.mem_cons.mp hmem with hblock | hmem
          · cases hblock
          · exact hinner hmem

/-- Where a return is allowed, a function stops it. -/
theorem returnStops_of_checkReturn (h : m.store.checkReturn m.stack = .ok ()) :
    m.ReturnStops := by
  have hfunction : m.store.inFunction m.stack = true := by
    unfold Store.checkReturn at h
    split at h
    · assumption
    · cases h
  obtain ⟨index, hindex, hkind⟩ := List.any_eq_true.mp hfunction
  exact List.mem_map.mpr ⟨index, hindex, of_decide_eq_true hkind⟩

/-! ## Kinds stay -/

/-- Every frame keeps its kind, and the kinds of the visible frames are the same as
before. -/
structure Steady (m m' : Machine) : Prop where
  size_le : m.store.frames.size ≤ m'.store.frames.size
  kind_eq : ∀ i, i < m.store.frames.size →
    (m'.store.frame i).kind = (m.store.frame i).kind
  visible : m.store.Given m.stack → m'.store.Given m'.stack ∧ m'.kinds = m.kinds

/-- Frames that keep their kinds twice keep them. -/
theorem Steady.trans {m'' : Machine} (h : m.Steady m')
    (h' : m'.Steady m'') : m.Steady m'' where
  size_le := Nat.le_trans h.size_le h'.size_le
  kind_eq i hi := by
    rw [h'.kind_eq i (Nat.lt_of_lt_of_le hi h.size_le), h.kind_eq i hi]
  visible hgiven := by
    obtain ⟨hgiven', hkinds⟩ := h.visible hgiven
    obtain ⟨hgiven'', hkinds'⟩ := h'.visible hgiven'
    exact ⟨hgiven'', hkinds'.trans hkinds⟩

/-- Where the visible frames are kept, they keep their kinds. -/
theorem Kept.steady (h : m.Kept m') : m.Steady m' where
  size_le := h.grows.size_le
  kind_eq i hi := by rw [h.grows.frame_eq i hi]
  visible hgiven := by
    constructor
    · rw [h.stack_eq]
      exact hgiven.mono h.grows.size_le
    · unfold kinds
      rw [h.stack_eq]
      apply List.map_congr_left
      intro i hi
      rw [h.grows.frame_eq i (hgiven i hi)]

/-- A new name changes the names of a frame and not its kind. -/
theorem kind_frame_bindNew (s : Store) (index : Nat) (name : String) (v : Value)
    (const : Bool) (i : Nat) :
    ((s.bindNew index name v const).frame i).kind = (s.frame i).kind := by
  by_cases hi : i = index
  · subst hi
    by_cases hlt : i < s.frames.size
    · rw [Store.frame_bindNew_self s name v const hlt]
      rfl
    · simp [Store.frame, Store.bindNew, hlt]
  · rw [Store.frame_bindNew_of_ne s name v const hi]

/-- Binding a name changes the kind of no frame. -/
theorem steady_bindNew (index : Nat) (name : String) (v : Value) (const : Bool) :
    m.Steady { m with store := m.store.bindNew index name v const } where
  size_le := by simp
  kind_eq i _ := kind_frame_bindNew m.store index name v const i
  visible hgiven := by
    refine ⟨hgiven.mono (by simp), ?_⟩
    apply List.map_congr_left
    exact fun i _ => kind_frame_bindNew m.store index name v const i

/-- A declaration changes the kind of no frame. -/
theorem steady_declare (name : String) (v : Value) (const : Bool) :
    m.Steady (m.updated (Store.declare name v const)) :=
  updated_declare (P := m.Steady) (Kept.refl m).steady fun top _ _ _ =>
    steady_bindNew top name v const

/-- A parameter changes the kind of no frame. -/
theorem steady_override (name : String) (v : Value) (const : Bool) :
    m.Steady (m.updated (Store.override name v const)) :=
  updated_override (P := m.Steady) (Kept.refl m).steady fun top _ _ =>
    steady_bindNew top name v const

/-- Frames that were given out are the same when a frame is added in front of
them. -/
theorem kinds_addFrame (s : Store) (frame : Frame) {outer : Stack}
    (houter : s.Given outer) :
    (s.addFrame frame).2.Given (s.frames.size :: outer) ∧
      ((s.frames.size :: outer).map fun i => ((s.addFrame frame).2.frame i).kind) =
        frame.kind :: outer.map fun i => (s.frame i).kind := by
  have hsize := Store.size_addFrame frame s
  constructor
  · exact Store.Given.cons (by omega) (houter.mono (by omega))
  · rw [List.map_cons, Store.frame_addFrame_self]
    congr 1
    apply List.map_congr_left
    intro i hi
    rw [Store.frame_addFrame_of_lt frame (houter i hi)]

/-- The copy that takes the place of the innermost frame has its kind. -/
theorem steady_settled : m.Steady m.settled := by
  unfold settled
  rcases m.settle_cases with ⟨_, hsettle⟩ | ⟨top, outer, hstack, hsettle⟩
  · rw [hsettle]
    exact (Kept.refl m).steady
  · rw [hsettle]
    have hgrows := Store.grows_addFrame (m.store.frame top) m.store
    refine ⟨hgrows.size_le, fun i hi => by rw [hgrows.frame_eq i hi], ?_⟩
    intro hgiven
    have houter : m.store.Given outer :=
      fun i hi => hgiven i (hstack ▸ List.mem_cons_of_mem _ hi)
    obtain ⟨hgiven', hkinds⟩ := kinds_addFrame m.store (m.store.frame top) houter
    refine ⟨hgiven', hkinds.trans ?_⟩
    unfold kinds
    rw [hstack]
    rfl

/-! ## Frames that are entered -/

/-- A scope has a frame of its kind on top. -/
theorem kinds_enter (kind : FrameKind) (hgiven : m.store.Given m.stack) :
    (m.enter kind).store.Given (m.enter kind).stack ∧
      (m.enter kind).kinds = kind :: m.kinds :=
  kinds_addFrame m.store ⟨kind, []⟩ hgiven

/-- Inside of a call, all visible frames exist. -/
theorem given_enterCall {captured : Stack} (hgiven : m.store.Given captured) :
    (m.enterCall captured).store.Given (m.enterCall captured).stack :=
  (kinds_addFrame m.store ⟨.function, []⟩ hgiven).1

/-- No `break` gets past the frame of a call. -/
theorem not_breakStops_enterCall {captured : Stack}
    (hgiven : m.store.Given captured) :
    ¬ (m.enterCall captured).BreakStops := by
  have hkinds : (m.enterCall captured).kinds = .function :: captured.map _ :=
    (kinds_addFrame m.store ⟨.function, []⟩ hgiven).2
  rintro ⟨inner, outer, heq, hinner⟩
  rw [hkinds] at heq
  cases inner with
  | nil => cases heq
  | cons kind inner =>
      obtain ⟨rfl, _⟩ := List.cons.inj heq
      exact hinner List.mem_cons_self

/-- A block is no place for a `break` to stop at. -/
theorem breakStops_of_enter (hgiven : m.store.Given m.stack)
    (h : (m.enter .block).BreakStops) :
    m.BreakStops := by
  obtain ⟨inner, outer, heq, hinner⟩ := h
  rw [(kinds_enter .block hgiven).2] at heq
  cases inner with
  | nil => cases heq
  | cons kind inner =>
      obtain ⟨_, heq⟩ := List.cons.inj heq
      exact ⟨inner, outer, heq, fun hmem => hinner (List.mem_cons_of_mem _ hmem)⟩

/-- A function that stops a return inside of a scope stands around the scope. -/
theorem returnStops_of_enter {kind : FrameKind} (hkind : kind ≠ .function)
    (hgiven : m.store.Given m.stack) (h : (m.enter kind).ReturnStops) :
    m.ReturnStops := by
  unfold ReturnStops at h
  rw [(kinds_enter kind hgiven).2] at h
  rcases List.mem_cons.mp h with h | h
  · exact absurd h.symm hkind
  · exact h

end Machine

/-! ## Evaluation -/

/-- Computations that end in a signal have its construct on the stack that they
start with. -/
def signals (g : Setting) : Discipline g :=
  { scoping g with
    stays := fun m m' => m.Extended m' ∧ m.Steady m'
    mayBreak := fun m => m.store.Given m.stack → m.BreakStops
    mayReturn := fun m => m.store.Given m.stack → m.ReturnStops
    stays_of_keeps := fun h => ⟨h.extended, h.steady⟩
    stays_trans := fun h h' => ⟨h.1.trans h'.1, h.2.trans h'.2⟩
    knows_stays := fun _ _ => trivial
    mayBreak_stays := by
      intro a b h hbreak hgiven
      obtain ⟨hgiven', hkinds⟩ := h.2.visible hgiven
      have hstops := hbreak hgiven'
      unfold Machine.BreakStops at hstops ⊢
      rwa [hkinds] at hstops
    mayReturn_stays := by
      intro a b h hreturn hgiven
      obtain ⟨hgiven', hkinds⟩ := h.2.visible hgiven
      have hstops := hreturn hgiven'
      unfold Machine.ReturnStops at hstops ⊢
      rwa [hkinds] at hstops
    declare :=
      fun _ _ => ⟨trivial, Machine.extended_declare _ _ _ _,
        Machine.steady_declare _ _ _⟩
    override :=
      fun _ _ => ⟨trivial, Machine.extended_override _ _ _ _,
        Machine.steady_override _ _ _⟩
    settle := fun _ => ⟨trivial, Machine.extended_settled _, Machine.steady_settled⟩
    leave := fun _ _ h => ⟨trivial, Machine.kept_leave h.1⟩
    leaveCall := fun _ _ _ h => ⟨trivial, Machine.kept_leaveCall h.1⟩
    checkBreak := fun _ h _ => Machine.breakStops_of_checkBreak h
    checkReturn := fun _ h _ => Machine.returnStops_of_checkReturn h
    mayBreak_enter := fun h hgiven =>
      Machine.breakStops_of_enter hgiven (h (Machine.kinds_enter .block hgiven).1)
    mayReturn_enter := fun hkind h hgiven =>
      Machine.returnStops_of_enter hkind hgiven
        (h (Machine.kinds_enter _ hgiven).1) }

/-- What ends in a signal on a machine has the construct of that signal on its
stack. -/
theorem Discipline.At.stops {g : Setting} {R : Machine → Machine → Prop}
    {m : Machine} {Q : Machine → α → Prop} {result : Outcome α × Machine}
    (h : (signals g).At R m Q result) (hgiven : m.store.Given m.stack) :
    (result.1 = .breaking → m.BreakStops) ∧ ∀ v, result.1 = .returning v →
      m.ReturnStops := by
  have hends := h.ends
  rcases result with ⟨outcome, m'⟩
  constructor
  · rintro rfl
    exact hends hgiven
  · rintro v rfl
    exact hends.1 hgiven

/-- The body of a closure, with its parameters bound, run on the frames of a
call. -/
theorem body_at {g : Setting} (fuel : Nat) (f : Closure) (arguments : List Value)
    (m : Machine) :
    (signals g).At (signals g).stays (m.enterCall f.captured) (signals g).knows
      ((do
        Eval.bindParameters f.definition.parameters arguments
        evaluate g fuel f.definition.body) (m.enterCall f.captured)) :=
  Discipline.body_at ((signals g).evaluate_disciplined fuel) trivial fun _ _ =>
    trivial

/-! ## The top level -/

/-- An interpreter that is at the top level: a single block frame is visible. -/
structure Interpreter.TopLevel (i : Interpreter) : Prop where
  given : i.machine.store.Given i.machine.stack
  kinds_eq : i.machine.kinds = [.block]

namespace Interpreter

/-- A new interpreter is at the top level. -/
theorem new_topLevel (limits : Limits) : (new limits).TopLevel := by
  refine ⟨(new_sound limits).machine.given, ?_⟩
  simp [new, Machine.kinds, Store.root, Store.addFrame, Store.empty, Store.frame]

/-- Going back to the depth of before drops nothing. -/
theorem run_topLevel {i : Interpreter} (hi : i.TopLevel) (fuel : Nat) (s : Stmt) :
    (i.run fuel s).2.TopLevel := by
  obtain ⟨hextended, hsteady⟩ := ((signals i.setting).execute_disciplined fuel s
    (m := i.machine) trivial).moves
  obtain ⟨hgiven, hkinds⟩ := hsteady.visible hi.given
  have hstack := reset_stack hextended
  constructor
  · rw [run_machine]
    show Store.Given _ (reset i.machine.stack.length _).stack
    rw [hstack]
    exact hgiven
  · rw [run_machine, ← hi.kinds_eq, ← hkinds]
    unfold Machine.kinds
    rw [hstack]
    rfl

/-- Behind any statements, an interpreter is at the top level. -/
theorem foldl_run_topLevel {i : Interpreter} (hi : i.TopLevel) (fuel : Nat)
    (ran : List Stmt) :
    (ran.foldl (fun i st => (i.run fuel st).2) i).TopLevel :=
  foldl_run_induction (fun st _ _ hi => run_topLevel hi fuel st) hi

/-- Neither signal has anything to stop at on the top level. -/
theorem TopLevel.not_stops {i : Interpreter} (hi : i.TopLevel) :
    ¬ i.machine.BreakStops ∧ ¬ i.machine.ReturnStops := by
  constructor
  · rintro ⟨inner, outer, heq, _⟩
    rw [hi.kinds_eq] at heq
    cases inner with
    | nil => cases heq
    | cons kind inner => simp at heq
  · unfold Machine.ReturnStops
    rw [hi.kinds_eq]
    decide

end Interpreter

/-- Signals stop at their construct.  A computation that ends in a `break` starts on
a stack with a loop frame that no function frame is inside of, and one that ends in
a `return` starts on a stack with a function frame.  So no `break` comes out of the
body of a closure, whatever frames the closure was formed in, and no signal comes
out of a statement at the top level, whatever statements were run before. -/
theorem signals_absorbed (fuel : Nat) :
    (∀ (g : Setting) (m : Machine), m.store.Given m.stack →
      (∀ e, ((evaluate g fuel e m).1 = .breaking → m.BreakStops) ∧
        ∀ v, (evaluate g fuel e m).1 = .returning v → m.ReturnStops) ∧
      (∀ s, ((execute g fuel s m).1 = .breaking → m.BreakStops) ∧
        ∀ v, (execute g fuel s m).1 = .returning v → m.ReturnStops)) ∧
    (∀ (g : Setting) (m : Machine) (f : Closure) (arguments : List Value),
      m.store.Given f.captured →
      (Eval.inCall f.captured (do
        Eval.bindParameters f.definition.parameters arguments
        evaluate g fuel f.definition.body) m).1 ≠ .breaking) ∧
    (∀ (i : Interpreter), i.TopLevel → ∀ (ran : List Stmt) (s : Stmt),
      let i' := ran.foldl (fun i st => (i.run fuel st).2) i
      (execute i'.setting fuel s i'.machine).1 ≠ .breaking ∧
        ∀ v, (execute i'.setting fuel s i'.machine).1 ≠ .returning v) := by
  refine ⟨?_, ?_, ?_⟩
  · intro g m hgiven
    constructor
    · intro e
      exact ((signals g).evaluate_disciplined fuel e m trivial).stops hgiven
    · intro s
      exact ((signals g).execute_disciplined fuel s (m := m) trivial).stops hgiven
  · intro g m f arguments hgiven hbreaking
    have hbody := body_at (g := g) fuel f arguments m
    rw [Eval.inCall_eq] at hbreaking
    have hstops := (hbody.stops (Machine.given_enterCall hgiven)).1 hbreaking
    exact Machine.not_breakStops_enterCall hgiven hstops
  · intro i hi ran s i'
    have hi' : i'.TopLevel := Interpreter.foldl_run_topLevel hi fuel ran
    have hstops := ((signals i'.setting).execute_disciplined fuel s
      (m := i'.machine) trivial).stops hi'.given
    constructor
    · intro hbreaking
      exact hi'.not_stops.1 (hstops.1 hbreaking)
    · intro v hreturning
      exact hi'.not_stops.2 (hstops.2 v hreturning)

/-- The machine in a turn of a loop that stands at the top level. -/
def insideLoop : Machine := (Interpreter.new {}).machine.enter .loop

/-- The block `{ break; }`. -/
def breakingBlock : Expr := ⟨.block [⟨.break_, true, default⟩], default⟩

/-- Inside a loop the block `{ break; }` ends in a `break`, and the loop is on the
stack.  A function with that block for a body, formed in the loop, does not break
out of a call, and at the top level neither does the block itself, also after the
function has been formed and called there. -/
theorem breakingBlock_absorbed :
    ((evaluate (Interpreter.new {}).setting 4 breakingBlock insideLoop).1 =
      .breaking ∧
      insideLoop.BreakStops) ∧
    (Eval.inCall insideLoop.stack (do
      Eval.bindParameters [] []
      evaluate (Interpreter.new {}).setting 4 breakingBlock) insideLoop).1 ≠
        .breaking ∧
    (let formed : Expr := ⟨.call ⟨.function ⟨[], breakingBlock⟩, default⟩ [],
      default⟩
     let i := ([⟨.evaluate formed, true, default⟩].foldl
       (fun i st => (Interpreter.run 4 st i).2) (Interpreter.new {}))
     (execute i.setting 4 ⟨.evaluate breakingBlock, true, default⟩ i.machine).1 ≠
       .breaking) := by
  obtain ⟨hstops, hcalls, htop⟩ := signals_absorbed 4
  have htopLevel := Interpreter.new_topLevel {}
  have hgiven : insideLoop.store.Given insideLoop.stack :=
    (Machine.kinds_enter .loop htopLevel.given).1
  refine ⟨⟨rfl, ?_⟩, ?_, ?_⟩
  · exact ((hstops (Interpreter.new {}).setting insideLoop hgiven).1
      breakingBlock).1 rfl
  · exact hcalls (Interpreter.new {}).setting insideLoop
      ⟨0, ⟨[], breakingBlock⟩, insideLoop.stack⟩ [] hgiven
  · exact (htop (Interpreter.new {}) htopLevel _ _).1

end ScriptLang
