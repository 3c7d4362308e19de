import ScriptLang.Eval.Evaluate

/-!
# What holds of every evaluation

A `Discipline` is a property of evaluation that can be checked operation by
operation: it says what an expression may do to the machine (`keeps`), what a
statement may do to the machine in whose innermost frame it runs (`stays`), which
machines are fit to run on (`sound`), which values may turn up (`knows`), and where
a `break` or a `return` may come from.  Its laws speak of the primitive operations
only: reading and assigning a name, declaring one, forming a closure, entering and
leaving a scope or a call.

The constructs of the language add nothing to these.  Each has one lemma, which
assumes that the evaluator `ev` of what is nested in it is disciplined, and
`evaluate_disciplined` ties the knot by induction on the number of steps.  A theorem
about all evaluations is then a matter of giving a discipline.
-/

namespace ScriptLang

/-! ## Values without functions inside -/

/-- Whether a value has no function and no namespace in it. -/
def Value.isPlain : Value → Bool
  | .closure _ | .native _ | .namespace_ _ => false
  | _ => true

namespace Value

/-- Arithmetic gives plain values. -/
theorem isPlain_arithmetic {o : Operator} {a b v : Value}
    (h : a.arithmetic o b = .ok v) :
    v.isPlain = true := by
  unfold arithmetic at h
  split at h
  · unfold intArithmetic at h
    split at h <;> first | (split at h <;> cases h <;> rfl) | (cases h <;> rfl)
  · split at h
    · unfold floatArithmetic at h
      split at h <;> cases h <;> rfl
    · cases h

/-- Texts are plain. -/
theorem isPlain_concatenate (a b : Value) : (a.concatenate b).isPlain = true := by
  unfold concatenate
  split <;> rfl

/-- Comparisons give plain values. -/
theorem isPlain_compare (o : Operator) (a b : Value) :
    (a.compare o b).isPlain = true := by
  unfold compare
  dsimp only
  split
  · rfl
  · split
    · rfl
    · rfl
    · split <;> rfl
    · rfl

/-- Operators give plain values. -/
theorem isPlain_applyBinary {o : Operator} {a b v : Value}
    (h : a.applyBinary o b = .ok v) :
    v.isPlain = true := by
  unfold applyBinary at h
  split at h
  all_goals first
    | exact isPlain_arithmetic h
    | (cases h; exact isPlain_concatenate a b)
    | (cases h; exact isPlain_compare _ a b)
    | cases h

/-- Signs give plain values. -/
theorem isPlain_applySign {o : Operator} {a v : Value} (h : a.applySign o = .ok v) :
    v.isPlain = true := by
  unfold applySign at h
  split at h <;> cases h <;> rfl

/-- A cast makes a plain value, or leaves a function as it is. -/
theorem isPlain_cast {a v : Value} {target : TypeName} (h : a.cast target = .ok v) :
    v.isPlain = true ∨ v = a := by
  unfold cast at h
  dsimp only at h
  split at h
  all_goals first
    | (cases h; right; rfl)
    | (cases h; left; rfl)
    | (cases h; left; unfold orNull; split <;> rfl)
    | (cases h; left; split; rfl; split <;> rfl)
    | cases h

/-- Literals are plain. -/
theorem isPlain_ofLiteral (l : Literal) : (ofLiteral l).isPlain = true := by
  cases l <;> rfl

end Value

/-! ## Entering and leaving scopes -/

namespace Machine

/-- The machine inside a new scope. -/
def enter (kind : FrameKind) (m : Machine) : Machine :=
  { m with
    stack := (m.store.push kind m.stack).1
    store := (m.store.push kind m.stack).2 }

/-- The machine back in the scope that has the given depth. -/
def leave (depth : Nat) (m : Machine) : Machine :=
  { m with stack := m.stack.truncate depth }

/-- The machine inside a call. -/
def enterCall (captured : Stack) (m : Machine) : Machine :=
  { m with
    stack := (m.store.push .function captured).1
    store := (m.store.push .function captured).2
    callDepth := m.callDepth + 1 }

/-- The machine back at the caller. -/
def leaveCall (caller : Stack) (m : Machine) : Machine :=
  { m with stack := caller, callDepth := m.callDepth - 1 }

/-- The machine after an operation on its store. -/
def updated (operation : Stack → Store → Except Fault Unit × Store)
    (m : Machine) : Machine :=
  { m with store := (operation m.stack m.store).2 }

/-- The machine after its innermost frame was replaced by a copy. -/
def settled (m : Machine) : Machine := (Eval.settle m).2

end Machine

/-- A scope is entered and left. -/
theorem Eval.inScope_eq (kind : FrameKind) (p : Eval α) (m : Machine) :
    inScope kind p m = ((p (m.enter kind)).1,
      (p (m.enter kind)).2.leave m.stack.length) := rfl

/-- A call is entered and left. -/
theorem Eval.inCall_eq (captured : Stack) (p : Eval α) (m : Machine) :
    inCall captured p m =
      ((p (m.enterCall captured)).1,
        (p (m.enterCall captured)).2.leaveCall m.stack) := rfl

/-! ## Disciplines -/

/-- A property of evaluation, given by what it says of the primitive operations. -/
structure Discipline (g : Setting) where
  /-- What an expression may do to a machine. -/
  keeps : Machine → Machine → Prop
  /-- What a statement may do to a machine. -/
  stays : Machine → Machine → Prop
  /-- The machines that evaluation may start on. -/
  sound : Machine → Prop
  /-- The values that may turn up on a machine. -/
  knows : Machine → Value → Prop
  /-- The machines on which a computation that ends in a `break` may have
  started. -/
  mayBreak : Machine → Prop
  /-- The machines on which a computation that ends in a `return` may have
  started. -/
  mayReturn : Machine → Prop
  keeps_refl : ∀ m, keeps m m
  keeps_trans : ∀ {a b c}, keeps a b → keeps b c → keeps a c
  stays_of_keeps : ∀ {a b}, keeps a b → stays a b
  stays_trans : ∀ {a b c}, stays a b → stays b c → stays a c
  knows_stays : ∀ {a b v}, stays a b → knows a v → knows b v
  mayBreak_stays : ∀ {a b}, stays a b → mayBreak b → mayBreak a
  mayReturn_stays : ∀ {a b}, stays a b → mayReturn b → mayReturn a
  knows_plain : ∀ m {v : Value}, v.isPlain = true → knows m v
  knows_member : ∀ {m space name v}, knows m (.namespace_ space) →
    space.member? name = some v → knows m v
  knows_space : ∀ {m space}, sound m → space ∈ g.namespaces →
    knows m (.namespace_ space)
  knows_cell : ∀ {m name index}, sound m →
    m.store.resolve? name m.stack = some index →
    knows m (m.store.cell index).value
  assign : ∀ {m name v}, sound m → knows m v →
    sound (m.updated (Store.assign name v)) ∧
      keeps m (m.updated (Store.assign name v))
  close : ∀ {m} (d : FunctionDef), sound m →
    sound { m with nextIdentity := m.nextIdentity + 1 } ∧
      keeps m { m with nextIdentity := m.nextIdentity + 1 } ∧
      knows { m with nextIdentity := m.nextIdentity + 1 }
        (.closure ⟨m.nextIdentity, d, m.stack⟩)
  host :
    ∀ {m : Machine} {f : Native} {action : HostProcedure} {arguments : List Value},
    sound m →
    knows m (.native f) → g.host[f.entry]? = some action →
    (∀ v ∈ arguments, knows m v) →
    sound { m with console := (action arguments m.console).2 } ∧
      keeps m { m with console := (action arguments m.console).2 } ∧
      ∀ v, (action arguments m.console).1 = .value v →
        knows { m with console := (action arguments m.console).2 } v
  declare : ∀ {m name v const}, sound m → knows m v →
    sound (m.updated (Store.declare name v const)) ∧
      stays m (m.updated (Store.declare name v const))
  override : ∀ {m name v const}, sound m → knows m v →
    sound (m.updated (Store.override name v const)) ∧
      stays m (m.updated (Store.override name v const))
  settle : ∀ {m}, sound m → sound m.settled ∧ stays m m.settled
  enter : ∀ {m} kind, sound m → sound (m.enter kind)
  knows_enter : ∀ {m v} kind, knows m v → knows (m.enter kind) v
  leave : ∀ {m m' kind}, sound m → sound m' → stays (m.enter kind) m' →
    sound (m'.leave m.stack.length) ∧ keeps m (m'.leave m.stack.length)
  knows_leave : ∀ {m v} depth, knows m v → knows (m.leave depth) v
  enterCall : ∀ {m f}, sound m → knows m (.closure f) →
    m.callDepth < g.maxCallDepth →
    sound (m.enterCall f.captured)
  knows_enterCall : ∀ {m v} captured, knows m v → knows (m.enterCall captured) v
  leaveCall : ∀ {m m' f}, sound m → sound m' → knows m (.closure f) →
    stays (m.enterCall f.captured) m' →
    sound (m'.leaveCall m.stack) ∧ keeps m (m'.leaveCall m.stack)
  knows_leaveCall : ∀ {m v} caller, knows m v → knows (m.leaveCall caller) v
  checkBreak : ∀ {m}, sound m → m.store.checkBreak m.stack = .ok () → mayBreak m
  checkReturn : ∀ {m}, sound m → m.store.checkReturn m.stack = .ok () → mayReturn m
  mayBreak_enter : ∀ {m}, mayBreak (m.enter .block) → mayBreak m
  mayReturn_enter : ∀ {m kind}, kind ≠ .function →
    mayReturn (m.enter kind) → mayReturn m

namespace Discipline

variable {g : Setting} (D : Discipline g)

/-- How a computation that started on `m` may end: with a value that satisfies `Q`,
or on the way out of a loop or function that encloses it. -/
def Ends (m : Machine) (Q : Machine → α → Prop) : Outcome α × Machine → Prop
  | (.value a, m') => Q m' a
  | (.breaking, _) => D.mayBreak m
  | (.returning v, m') => D.mayReturn m ∧ D.knows m' v
  | _ => True

/-- A computation that started on `m` did what `R` allows, and ended well. -/
structure At (R : Machine → Machine → Prop) (m : Machine) (Q : Machine → α → Prop)
    (result : Outcome α × Machine) : Prop where
  sound : D.sound result.2
  moves : R m result.2
  ends : D.Ends m Q result

/-- An evaluator whose every evaluation is disciplined. -/
def Governs (ev : Expr → Eval Value) : Prop :=
  ∀ e m, D.sound m → D.At D.keeps m D.knows (ev e m)

/-- What expressions may do, and what statements may do: the two ways in which
computations move. -/
structure Mode (R : Machine → Machine → Prop) : Prop where
  trans : ∀ {a b c}, R a b → R b c → R a c
  of_keeps : ∀ {a b}, D.keeps a b → R a b
  stays : ∀ {a b}, R a b → D.stays a b

/-- To keep is a way to go on. -/
theorem keeps_mode : D.Mode D.keeps := ⟨D.keeps_trans, id, D.stays_of_keeps⟩

/-- To stay is a way to go on. -/
theorem stays_mode : D.Mode D.stays := ⟨D.stays_trans, D.stays_of_keeps, id⟩

variable {D} {R : Machine → Machine → Prop} {m : Machine}

/-! ## Sequencing -/

/-- What an expression does, a statement may do. -/
theorem At.widen {Q : Machine → α → Prop} {result : Outcome α × Machine}
    (hR : D.Mode R) (h : D.At D.keeps m Q result) : D.At R m Q result :=
  ⟨h.sound, hR.of_keeps h.moves, h.ends⟩

/-- A computation that leaves the machine alone and ends with a value. -/
theorem At.yield {Q : Machine → α → Prop} (hR : D.Mode R) (hm : D.sound m) {a : α}
    (h : Q m a) :
    D.At R m Q (.value a, m) := ⟨hm, hR.of_keeps (D.keeps_refl m), h⟩

/-- A fault leaves everything as it is. -/
theorem At.fail {Q : Machine → α → Prop} (hR : D.Mode R) (hm : D.sound m)
    (fault : Fault) :
    D.At R m Q (.failed fault, m) := ⟨hm, hR.of_keeps (D.keeps_refl m), trivial⟩

/-- An operation that does not touch the machine leaves everything as it is. -/
theorem At.lift {Q : Machine → α → Prop} (hR : D.Mode R) (hm : D.sound m)
    {result : Except Fault α} (h : ∀ a, result = .ok a → Q m a) :
    D.At R m Q (Eval.lift result m) := by
  cases result with
  | ok a => exact At.yield hR hm (h a rfl)
  | error fault => exact At.fail hR hm fault

/-- What is said about a value. -/
theorem At.of_value {Q : Machine → α → Prop} {result : Outcome α × Machine}
    (h : D.At R m Q result) {a : α} (ha : result.1 = .value a) : Q result.2 a := by
  have hends := h.ends
  rcases result with ⟨outcome, m'⟩
  cases ha
  exact hends

/-- What is said about a value on the way out of a function. -/
theorem At.of_returning {Q : Machine → α → Prop} {result : Outcome α × Machine}
    (h : D.At R m Q result) {v : Value} (hv : result.1 = .returning v) :
    D.mayReturn m ∧ D.knows result.2 v := by
  have hends := h.ends
  rcases result with ⟨outcome, m'⟩
  cases hv
  exact hends

/-- A computation that goes on from `m'`, which a computation from `m` has reached:
whatever encloses the rest of it encloses all of it. -/
theorem At.after {Q : Machine → α → Prop} {m' : Machine}
    {result : Outcome α × Machine} (hR : D.Mode R) (hmoves : R m m')
    (h : D.At R m' Q result) : D.At R m Q result := by
  refine ⟨h.sound, hR.trans hmoves h.moves, ?_⟩
  have hends := h.ends
  rcases result with ⟨outcome, m''⟩
  cases outcome with
  | value b => exact hends
  | breaking => exact D.mayBreak_stays (hR.stays hmoves) hends
  | returning v => exact ⟨D.mayReturn_stays (hR.stays hmoves) hends.1, hends.2⟩
  | failed _ | crashed _ | exhausted => trivial

/-- Two computations in sequence: the second one starts where the first one ended
with a value. -/
theorem At.bind {Q : Machine → α → Prop} {Q' : Machine → β → Prop} {p : Eval α}
    {next : α → Eval β} (hR : D.Mode R) (hp : D.At R m Q (p m))
    (hnext : ∀ a m', D.sound m' → R m m' → Q m' a → D.At R m' Q' (next a m')) :
    D.At R m Q' ((p >>= next) m) := by
  show D.At R m Q' (Eval.andThen p next m)
  obtain ⟨hsound, hmoves, hends⟩ := hp
  unfold Eval.andThen
  rcases hrun : p m with ⟨outcome, m'⟩
  rw [hrun] at hsound hmoves hends
  cases outcome with
  | value a => exact (hnext a m' hsound hmoves hends).after hR hmoves
  | breaking | returning v | failed fault | crashed words | exhausted =>
      exact ⟨hsound, hmoves, hends⟩

/-- A `return` hands on the value that was evaluated for it. -/
theorem At.returning {p : Eval Value} (hp : D.At D.keeps m D.knows (p m))
    (hreturn : D.mayReturn m) :
    D.At D.stays m D.knows ((p >>= fun v => Eval.stop (.returning v)) m) := by
  show D.At D.stays m D.knows (Eval.andThen p (fun v => Eval.stop (.returning v)) m)
  obtain ⟨hsound, hmoves, hends⟩ := hp
  unfold Eval.andThen
  rcases hrun : p m with ⟨outcome, m'⟩
  rw [hrun] at hsound hmoves hends
  have hstays := D.stays_of_keeps hmoves
  cases outcome with
  | value v => exact ⟨hsound, hstays, hreturn, hends⟩
  | breaking | returning v | failed fault | crashed words | exhausted =>
      exact ⟨hsound, hstays, hends⟩

/-! ## Primitive operations -/

/-- An operation on the store that is refused leaves the machine as it was, so only
its law matters. -/
theorem At.update {operation : Stack → Store → Except Fault Unit × Store}
    (h : D.sound (m.updated operation) ∧ R m (m.updated operation)) :
    D.At R m (fun _ _ => True) (Eval.update operation m) := by
  show D.At R m _ (Eval.lift (operation m.stack m.store).1 (m.updated operation))
  cases (operation m.stack m.store).1 with
  | ok u => exact ⟨h.1, h.2, trivial⟩
  | error fault => exact ⟨h.1, h.2, trivial⟩

/-- The value of a name is known. -/
theorem At.access (hm : D.sound m) (name : String) :
    D.At D.keeps m D.knows (Eval.access name m) := by
  apply At.lift D.keeps_mode hm
  intro v hv
  unfold Store.access at hv
  split at hv
  · rename_i index hindex
    cases hv
    exact D.knows_cell hm hindex
  · cases hv

/-- A closure over the visible frames is known. -/
theorem At.close (hm : D.sound m) (d : FunctionDef) :
    D.At D.keeps m D.knows (Eval.close d m) :=
  ⟨(D.close d hm).1, (D.close d hm).2.1, (D.close d hm).2.2⟩

/-- Copying the innermost frame stays. -/
theorem At.settle (hm : D.sound m) :
    D.At D.stays m (fun _ _ => True) (Eval.settle m) := by
  refine ⟨(D.settle hm).1, (D.settle hm).2, ?_⟩
  unfold Eval.settle
  split <;> trivial

/-- A check does not move, and hands on what it found. -/
theorem At.check (hR : D.Mode R) (hm : D.sound m)
    (condition : Stack → Store → Except Fault Unit) :
    D.At R m (fun m' _ => m' = m ∧ condition m.stack m.store = .ok ())
      (Eval.check condition m) :=
  At.lift hR hm fun _ h => ⟨rfl, h⟩

/-- Whatever happens inside a new scope, the machine outside is kept, and a `return`
on its way out has a function to leave outside. -/
theorem inScope_moves {Q : Machine → α → Prop} {p : Eval α} {kind : FrameKind}
    (hkind : kind ≠ .function) (hm : D.sound m)
    (hp : D.At D.stays (m.enter kind) Q (p (m.enter kind))) :
    D.sound (Eval.inScope kind p m).2 ∧ D.keeps m (Eval.inScope kind p m).2 ∧
      ∀ v, (Eval.inScope kind p m).1 = .returning v →
        D.mayReturn m ∧ D.knows (Eval.inScope kind p m).2 v := by
  rw [Eval.inScope_eq]
  have hleave := D.leave hm hp.sound hp.moves
  refine ⟨hleave.1, hleave.2, ?_⟩
  intro v hv
  obtain ⟨hreturn, hknows⟩ := hp.of_returning hv
  exact ⟨D.mayReturn_enter hkind hreturn, D.knows_leave _ hknows⟩

/-- A block does not stop a `break`. -/
theorem At.inBlock {p : Eval Value} (hm : D.sound m)
    (hp : D.At D.stays (m.enter .block) D.knows (p (m.enter .block))) :
    D.At D.keeps m D.knows (Eval.inScope .block p m) := by
  obtain ⟨hsound, hmoves, hreturn⟩ := inScope_moves (by decide) hm hp
  refine ⟨hsound, hmoves, ?_⟩
  have hends := hp.ends
  rw [Eval.inScope_eq] at hreturn ⊢
  rcases hrun : p (m.enter .block) with ⟨outcome, m'⟩
  rw [hrun] at hends hreturn
  cases outcome with
  | value a => exact D.knows_leave _ hends
  | breaking => exact D.mayBreak_enter hends
  | returning v => exact hreturn v rfl
  | failed _ | crashed _ | exhausted => trivial

/-! ## Conditions and lists of expressions -/

/-- Asking for a truth leaves everything as it is. -/
theorem truth_at (hm : D.sound m) (v : Value) :
    D.At D.keeps m (fun _ _ => True) (Eval.truth v m) := by
  unfold Eval.truth
  cases v.bool? with
  | some b => exact At.yield D.keeps_mode hm trivial
  | none => exact At.fail D.keeps_mode hm _

/-- The operand of a type test leaves everything as it is. -/
theorem typeOperand_at (hm : D.sound m) (e : Expr) :
    D.At D.keeps m (fun _ _ => True) (Eval.typeOperand e m) := by
  unfold Eval.typeOperand
  cases e.node with
  | type target => exact At.yield D.keeps_mode hm trivial
  | _ => exact At.fail D.keeps_mode hm _

section Constructs

variable {ev : Expr → Eval Value} (hev : D.Governs ev)
include hev

/-- An operand that may be missing keeps the discipline. -/
theorem optional_at (hm : D.sound m) (otherwise : Value) (h : D.knows m otherwise)
    (e : Option Expr) :
    D.At D.keeps m D.knows (Eval.optional ev otherwise e m) := by
  cases e with
  | none => exact At.yield D.keeps_mode hm h
  | some e => exact hev e m hm

/-- The values evaluated first are still known when the last one has been
evaluated. -/
theorem all_at (es : List Expr) (hm : D.sound m) :
    D.At D.keeps m (fun m' vs => ∀ v ∈ vs, D.knows m' v) (Eval.all ev es m) := by
  induction es generalizing m with
  | nil => exact At.yield D.keeps_mode hm (by simp)
  | cons e rest ih =>
      apply (hev e m hm).bind D.keeps_mode
      intro value m₁ hm₁ _ hvalue
      apply (ih hm₁).bind D.keeps_mode
      intro values m₂ hm₂ hmoves hvalues
      apply At.yield D.keeps_mode hm₂
      intro v hv
      rcases List.mem_cons.mp hv with rfl | hv
      · exact D.knows_stays (D.stays_of_keeps hmoves) hvalue
      · exact hvalues v hv

/-! ## Calls -/

omit hev in
/-- Binding parameters to known values stays. -/
theorem bindParameters_at (parameters : List Parameter) (values : List Value)
    (hm : D.sound m) (hvalues : ∀ v ∈ values, D.knows m v) :
    D.At D.stays m (fun _ _ => True) (Eval.bindParameters parameters values m) := by
  induction parameters generalizing values m with
  | nil => exact At.yield D.stays_mode hm trivial
  | cons p parameters ih =>
      cases values with
      | nil => exact At.yield D.stays_mode hm trivial
      | cons value values =>
          unfold Eval.bindParameters
          split
          · exact At.fail D.stays_mode hm _
          · have hvalue := hvalues value List.mem_cons_self
            apply (At.update (D.override hm hvalue)).bind D.stays_mode
            intro _ m₁ hm₁ hmoves _
            apply ih values hm₁
            intro v hv
            exact D.knows_stays hmoves (hvalues v (List.mem_cons_of_mem _ hv))

/-- The body of a closure, with its parameters bound, on the frames of a call. -/
theorem body_at {f : Closure} {arguments : List Value}
    (hinside : D.sound (m.enterCall f.captured))
    (harguments : ∀ v ∈ arguments, D.knows m v) :
    D.At D.stays (m.enterCall f.captured) D.knows
      ((do
        Eval.bindParameters f.definition.parameters arguments
        ev f.definition.body) (m.enterCall f.captured)) := by
  refine (bindParameters_at _ _ hinside fun v hv =>
    D.knows_enterCall _ (harguments v hv)).bind D.stays_mode fun _ m₁ hm₁ _ _ => ?_
  exact (hev _ m₁ hm₁).widen D.stays_mode

/-- A call ends every `return` and every `break` of the body. -/
theorem callClosure_at {f : Closure} {arguments : List Value} (hm : D.sound m)
    (hf : D.knows m (.closure f)) (harguments : ∀ v ∈ arguments, D.knows m v) :
    D.At D.keeps m D.knows (Eval.callClosure ev g f arguments m) := by
  unfold Eval.callClosure
  dsimp only
  split
  · exact At.fail D.keeps_mode hm _
  · split
    · exact At.fail D.keeps_mode hm _
    · rename_i hdepth
      have hinside : D.sound (m.enterCall f.captured) :=
        D.enterCall hm hf (Nat.lt_of_not_le hdepth)
      have hbody := body_at hev hinside harguments
      rw [Eval.inCall_eq]
      unfold Eval.absorbing
      generalize (do
        Eval.bindParameters f.definition.parameters arguments
        ev f.definition.body : Eval Value) = body at hbody
      obtain ⟨hsound, hmoves, hends⟩ := hbody
      rcases hrun : body (m.enterCall f.captured) with ⟨outcome, m'⟩
      rw [hrun] at hsound hmoves hends
      have hleave := D.leaveCall hm hsound hf hmoves
      cases outcome with
      | value v => exact ⟨hleave.1, hleave.2, D.knows_leaveCall _ hends⟩
      | breaking => exact ⟨hleave.1, hleave.2, D.knows_plain _ rfl⟩
      | returning v => exact ⟨hleave.1, hleave.2, D.knows_leaveCall _ hends.2⟩
      | failed _ | crashed _ | exhausted => exact ⟨hleave.1, hleave.2, trivial⟩

omit hev in
/-- A call of a known function of the host. -/
theorem callNative_at {f : Native} {arguments : List Value} (hm : D.sound m)
    (hf : D.knows m (.native f)) (harguments : ∀ v ∈ arguments, D.knows m v) :
    D.At D.keeps m D.knows (Eval.callNative g f arguments m) := by
  rw [Eval.callNative_eq]
  split
  · exact At.fail D.keeps_mode hm _
  · split
    · exact At.yield D.keeps_mode hm (D.knows_plain _ rfl)
    · rename_i action haction
      obtain ⟨hsound, hmoves, hanswer⟩ := D.host hm hf haction harguments
      dsimp only
      split
      · rename_i v hv
        exact ⟨hsound, hmoves, hanswer v hv⟩
      · exact ⟨hsound, hmoves, trivial⟩
      · exact ⟨hsound, hmoves, trivial⟩

/-- A call of a known value keeps the discipline. -/
theorem call_at {callee : Value} {arguments : List Value} (hm : D.sound m)
    (hcallee : D.knows m callee) (harguments : ∀ v ∈ arguments, D.knows m v) :
    D.At D.keeps m D.knows (Eval.call ev g callee arguments m) := by
  unfold Eval.call
  split
  · exact callClosure_at hev hm hcallee harguments
  · exact callNative_at hm hcallee harguments
  · exact At.fail D.keeps_mode hm _

/-! ## Statements -/

/-- A declaration of several names stays. -/
theorem declareAll_at (bindings : List Binding) (hm : D.sound m) :
    D.At D.stays m (fun _ _ => True) (Eval.declareAll ev bindings m) := by
  induction bindings generalizing m with
  | nil => exact At.yield D.stays_mode hm trivial
  | cons b rest ih =>
      have hvalue := optional_at hev hm .null (D.knows_plain m rfl) b.value
      apply (hvalue.widen D.stays_mode).bind D.stays_mode
      intro value m₁ hm₁ _ hknows
      apply (At.update (D.declare hm₁ hknows)).bind D.stays_mode
      intro _ m₂ hm₂ _ _
      exact ih hm₂

omit hev in
/-- The members of a known namespace are known. -/
theorem knows_valueMember {target v : Value} {name : String} (h : D.knows m target)
    (hv : target.member name = .ok v) : D.knows m v := by
  unfold Value.member at hv
  split at hv
  · split at hv
    · rename_i hmember
      cases hv
      exact D.knows_member h hmember
    · cases hv
  · cases hv

omit hev in
/-- A path from a known value leads to known ones. -/
theorem knows_follow {name : String} {value : Value} {path : List String}
    {result : String × Value} (hvalue : D.knows m value)
    (h : Eval.follow name value path = .ok result) : D.knows m result.2 := by
  induction path generalizing name value with
  | nil => cases h; exact hvalue
  | cons next rest ih =>
      simp only [Eval.follow] at h
      split at h
      · rename_i inner hinner
        exact ih (knows_valueMember hvalue hinner) h
      · cases h

omit hev in
/-- A path leads to known values. -/
theorem knows_resolvePath {path : List String} {result : String × Value}
    (hm : D.sound m) (h : Eval.resolvePath g path = .ok result) :
    D.knows m result.2 := by
  cases path with
  | nil => cases h
  | cons first rest =>
      simp only [Eval.resolvePath] at h
      split at h
      · rename_i space hspace
        exact knows_follow (D.knows_space hm (List.mem_of_find?_eq_some hspace)) h
      · cases h

omit hev in
/-- A `break` that is allowed where it stands may break out of its statement. -/
theorem break_at (hm : D.sound m) :
    D.At D.stays m D.knows ((do
      Eval.check Store.checkBreak
      Eval.stop .breaking : Eval Value) m) := by
  apply (At.check D.stays_mode hm _).bind D.stays_mode
  intro _ m₁ hm₁ _ hcheck
  obtain ⟨rfl, hok⟩ := hcheck
  exact ⟨hm, D.stays_mode.of_keeps (D.keeps_refl _), D.checkBreak hm hok⟩

/-- An action of a statement stays. -/
theorem perform_at (a : Action) (hm : D.sound m) :
    D.At D.stays m D.knows (Eval.perform ev g a m) := by
  cases a with
  | pull path =>
      have hpath : D.At D.stays m (fun m' result => D.knows m' result.2)
          (Eval.lift (Eval.resolvePath g path) m) :=
        At.lift D.stays_mode hm fun _ h => knows_resolvePath hm h
      refine hpath.bind D.stays_mode fun ⟨name, value⟩ m₁ hm₁ _ hknows => ?_
      apply (At.update (D.declare hm₁ hknows)).bind D.stays_mode
      intro _ m₂ hm₂ _ _
      apply (At.settle hm₂).bind D.stays_mode
      intro _ m₃ hm₃ _ _
      exact At.yield D.stays_mode hm₃ (D.knows_plain _ rfl)
  | declare bindings =>
      apply (declareAll_at hev bindings hm).bind D.stays_mode
      intro _ m₁ hm₁ _ _
      apply (At.settle hm₁).bind D.stays_mode
      intro _ m₂ hm₂ _ _
      exact At.yield D.stays_mode hm₂ (D.knows_plain _ rfl)
  | break_ => exact break_at hm
  | breakIf condition =>
      apply ((hev condition m hm).widen D.stays_mode).bind D.stays_mode
      intro v m₁ hm₁ _ _
      apply ((truth_at hm₁ v).widen D.stays_mode).bind D.stays_mode
      intro b m₂ hm₂ _ _
      cases b with
      | true => exact break_at hm₂
      | false => exact At.yield D.stays_mode hm₂ (D.knows_plain _ rfl)
  | return_ value =>
      apply (At.check D.stays_mode hm _).bind D.stays_mode
      intro _ m₁ hm₁ _ hcheck
      obtain ⟨rfl, hok⟩ := hcheck
      have hvalue := optional_at hev hm₁ .null (D.knows_plain m₁ rfl) value
      exact At.returning hvalue (D.checkReturn hm₁ hok)
  | evaluate e => exact (hev e m hm).widen D.stays_mode

/-- Statements one after the other stay. -/
theorem sequence_at (statements : List Stmt) {result : Value} (hm : D.sound m)
    (hresult : D.knows m result) :
    D.At D.stays m D.knows (Eval.sequence ev g result statements m) := by
  induction statements generalizing result m with
  | nil => exact At.yield D.stays_mode hm hresult
  | cons s rest ih =>
      apply (perform_at hev s.action hm).bind D.stays_mode
      intro value m₁ hm₁ hmoves hvalue
      apply ih hm₁
      split
      · exact D.knows_stays hmoves hresult
      · exact hvalue

/-! ## Conditionals and loops -/

/-- The truth value of an expression. -/
theorem condition_at (e : Expr) (hm : D.sound m) :
    D.At D.keeps m (fun _ _ => True) ((ev e >>= Eval.truth) m) :=
  (hev e m hm).bind D.keeps_mode fun v _ hm₁ _ _ => truth_at hm₁ v

/-- The alternatives of a conditional keep the discipline. -/
theorem alternatives_at (otherwise : Option Expr) (branches : List Alternative)
    (hm : D.sound m) :
    D.At D.keeps m D.knows (Eval.alternatives ev otherwise branches m) := by
  induction branches generalizing m with
  | nil => exact optional_at hev hm .null (D.knows_plain m rfl) otherwise
  | cons a rest ih =>
      apply (hev a.condition m hm).bind D.keeps_mode
      intro v m₁ hm₁ _ _
      apply (truth_at hm₁ v).bind D.keeps_mode
      intro b m₂ hm₂ _ _
      cases b with
      | true => exact hev a.body m₂ hm₂
      | false => exact ih hm₂

/-- One turn of a loop.  Its `break` is for the loop to stop. -/
theorem turn_moves (counter : Option (String × Value)) (body : Expr)
    (hm : D.sound m) (hcounter : ∀ name v, counter = some (name, v) → D.knows m v) :
    D.sound (Eval.turn ev counter body m).2 ∧
      D.keeps m (Eval.turn ev counter body m).2 ∧
      ∀ v, (Eval.turn ev counter body m).1 = .returning v →
        D.mayReturn m ∧ D.knows (Eval.turn ev counter body m).2 v := by
  have hinside : D.sound (m.enter .loop) := D.enter _ hm
  apply inScope_moves (Q := D.knows) (by decide) hm
  cases counter with
  | none =>
      exact (At.yield D.stays_mode hinside trivial).bind D.stays_mode
          fun _ m₁ hm₁ _ (_ : True) =>
      (hev body m₁ hm₁).widen D.stays_mode
  | some counter =>
      obtain ⟨name, value⟩ := counter
      have hvalue := D.knows_enter .loop (hcounter name value rfl)
      exact (At.update (D.declare hinside hvalue)).bind D.stays_mode
          fun _ m₁ hm₁ _ _ =>
        (hev body m₁ hm₁).widen D.stays_mode

omit hev in
/-- A loop goes on after a turn that ended with a value, stops after a `break`, and
hands on the rest. -/
theorem At.afterTurn {result : Outcome Value × Machine}
    {continued : Machine → Outcome Value × Machine}
    (hnext : ∀ m', D.sound m' → D.At D.keeps m' D.knows (continued m')) :
    (D.sound result.2 ∧ D.keeps m result.2 ∧
      ∀ v, result.1 = .returning v → D.mayReturn m ∧ D.knows result.2 v) →
    D.At D.keeps m D.knows (match result with
      | (.value _, m) => continued m
      | (.breaking, m) => (.value .null, m)
      | (outcome, m) => (outcome, m)) := by
  rintro ⟨hsound, hmoves, hreturn⟩
  rcases result with ⟨outcome, m'⟩
  cases outcome with
  | value v => exact (hnext m' hsound).after D.keeps_mode hmoves
  | breaking => exact ⟨hsound, hmoves, D.knows_plain _ rfl⟩
  | returning v => exact ⟨hsound, hmoves, hreturn v rfl⟩
  | failed _ | crashed _ | exhausted => exact ⟨hsound, hmoves, trivial⟩

omit hev in
/-- The values of a range are numbers. -/
theorem isPlain_next? {range rest : CounterRange} {v : Value}
    (h : range.next? = some (v, rest)) :
    v.isPlain = true := by
  cases range with
  | ints next stop step =>
      obtain ⟨_, hpair⟩ := Option.ite_none_right_eq_some.mp h
      cases hpair
      rfl
  | floats next stop step =>
      obtain ⟨_, hpair⟩ := Option.ite_none_right_eq_some.mp h
      cases hpair
      rfl

/-- A loop over a range of numbers keeps the discipline. -/
theorem forLoop_at (counter : Option String) (body : Expr) (fuel : Nat)
    (range : CounterRange) (hm : D.sound m) :
    D.At D.keeps m D.knows (Eval.forLoop ev counter body fuel range m) := by
  induction fuel generalizing range m with
  | zero => exact ⟨hm, D.keeps_refl m, trivial⟩
  | succ fuel ih =>
      unfold Eval.forLoop
      split
      · exact At.yield D.keeps_mode hm (D.knows_plain _ rfl)
      · rename_i value rest hnext
        refine At.afterTurn (fun m' hm' => ih rest hm')
          (turn_moves hev _ body hm ?_)
        intro name v hv
        obtain ⟨_, _, hpair⟩ := Option.map_eq_some_iff.mp hv
        cases hpair
        exact D.knows_plain _ (isPlain_next? hnext)

/-- A loop with a condition keeps the discipline. -/
theorem whileLoop_at (condition body : Expr) (fuel : Nat) (hm : D.sound m) :
    D.At D.keeps m D.knows (Eval.whileLoop ev condition body fuel m) := by
  induction fuel generalizing m with
  | zero => exact ⟨hm, D.keeps_refl m, trivial⟩
  | succ fuel ih =>
      have hcondition := condition_at hev condition hm
      obtain ⟨hsound, hmoves, hends⟩ := hcondition
      unfold Eval.whileLoop
      change D.sound (Eval.andThen (ev condition) Eval.truth m).2 at hsound
      change D.keeps m (Eval.andThen (ev condition) Eval.truth m).2 at hmoves
      change D.Ends m _ (Eval.andThen (ev condition) Eval.truth m) at hends
      rcases hrun : Eval.andThen (ev condition) Eval.truth m with ⟨outcome, m₁⟩
      rw [hrun] at hsound hmoves hends
      cases outcome with
      | value b =>
          cases b with
          | true =>
              have hturn := turn_moves hev none body hsound (by simp)
              exact (At.afterTurn (fun m' hm' => ih hm') hturn).after
                D.keeps_mode hmoves
          | false => exact ⟨hsound, hmoves, D.knows_plain _ rfl⟩
      | breaking | returning v | failed fault | crashed words | exhausted =>
          exact ⟨hsound, hmoves, hends⟩

/-! ## Operators -/

omit hev in
/-- What is stored is known, and is handed on as the value. -/
theorem store_at (name : String) {v : Value} (hm : D.sound m) (hv : D.knows m v) :
    D.At D.keeps m D.knows ((do
      Eval.update (Store.assign name v)
      return v : Eval Value) m) := by
  apply (At.update (D.assign hm hv)).bind D.keeps_mode
  intro _ m₁ hm₁ hmoves _
  exact At.yield D.keeps_mode hm₁ (D.knows_stays (D.stays_of_keeps hmoves) hv)

/-- An assignment keeps the discipline. -/
theorem assign_at (target : Expr) (o : Operator) (e : Expr) (hm : D.sound m) :
    D.At D.keeps m D.knows (Eval.assign ev target o e m) := by
  unfold Eval.assign
  cases target.node with
  | name name =>
      apply (hev e m hm).bind D.keeps_mode
      intro value m₁ hm₁ _ hvalue
      cases o.compoundBase? with
      | none =>
          apply (At.yield D.keeps_mode hm₁ hvalue).bind D.keeps_mode
          intro v m₂ hm₂ _ hv
          exact store_at name hm₂ hv
      | some base =>
          apply (At.access hm₁ name).bind D.keeps_mode
          intro old m₂ hm₂ _ _
          have hsum : D.At D.keeps m₂ D.knows
              (Eval.lift (old.arithmetic base value) m₂) :=
            At.lift D.keeps_mode hm₂ fun v h =>
              D.knows_plain _ (Value.isPlain_arithmetic h)
          exact hsum.bind D.keeps_mode fun v m₃ hm₃ _ hv => store_at name hm₃ hv
  | _ => exact At.fail D.keeps_mode hm _

/-- A truth value as a value. -/
theorem truthValue_at (e : Expr) (hm : D.sound m) :
    D.At D.keeps m D.knows
      ((do return .bool (← Eval.truth (← ev e)) : Eval Value) m) := by
  apply (hev e m hm).bind D.keeps_mode
  intro v m₁ hm₁ _ _
  apply (truth_at hm₁ v).bind D.keeps_mode
  intro b m₂ hm₂ _ _
  exact At.yield D.keeps_mode hm₂ (D.knows_plain _ rfl)

/-- The operators that evaluate both operands and then compute. -/
theorem strict_at (o : Operator) (left right : Expr) (hm : D.sound m) :
    D.At D.keeps m D.knows ((do
      let a ← ev left
      let b ← ev right
      Eval.lift (a.applyBinary o b) : Eval Value) m) := by
  apply (hev left m hm).bind D.keeps_mode
  intro a m₁ hm₁ _ _
  apply (hev right m₁ hm₁).bind D.keeps_mode
  intro b m₂ hm₂ _ _
  exact At.lift D.keeps_mode hm₂ fun v h =>
    D.knows_plain _ (Value.isPlain_applyBinary h)

/-- A type test, whose right operand is not evaluated. -/
theorem typeTest_at (test : Value → TypeName → Bool) (left right : Expr)
    (hm : D.sound m) :
    D.At D.keeps m D.knows ((do
      let value ← ev left
      return .bool (test value (← Eval.typeOperand right)) : Eval Value) m) := by
  apply (hev left m hm).bind D.keeps_mode
  intro v m₁ hm₁ _ _
  apply (typeOperand_at hm₁ right).bind D.keeps_mode
  intro t m₂ hm₂ _ _
  exact At.yield D.keeps_mode hm₂ (D.knows_plain _ rfl)

/-- A member of a namespace keeps the discipline. -/
theorem member_at (left right : Expr) (hm : D.sound m) :
    D.At D.keeps m D.knows ((do
      let target ← ev left
      match right.node with
      | .name member => Eval.lift (target.member member)
      | _ =>
          Eval.fail (.internal "member access needs a name") : Eval Value) m) := by
  apply (hev left m hm).bind D.keeps_mode
  intro target m₁ hm₁ _ htarget
  cases right.node with
  | name member =>
      exact At.lift D.keeps_mode hm₁ fun v h => knows_valueMember htarget h
  | _ => exact At.fail D.keeps_mode hm₁ _

/-- A binary operation keeps the discipline, whatever the rung of its operator. -/
theorem binary_at (o : Operator) (left right : Expr) (hm : D.sound m) :
    D.At D.keeps m D.knows (Eval.binary ev g o left right m) := by
  unfold Eval.binary
  split
  · exact assign_at hev left o right hm
  · cases o with
    | and =>
        apply (hev left m hm).bind D.keeps_mode
        intro v m₁ hm₁ _ _
        apply (truth_at hm₁ v).bind D.keeps_mode
        intro b m₂ hm₂ _ _
        cases b with
        | true => exact truthValue_at hev right hm₂
        | false => exact At.yield D.keeps_mode hm₂ (D.knows_plain _ rfl)
    | or =>
        apply (hev left m hm).bind D.keeps_mode
        intro v m₁ hm₁ _ _
        apply (truth_at hm₁ v).bind D.keeps_mode
        intro b m₂ hm₂ _ _
        cases b with
        | true => exact At.yield D.keeps_mode hm₂ (D.knows_plain _ rfl)
        | false => exact truthValue_at hev right hm₂
    | nullCoalescing =>
        apply (hev left m hm).bind D.keeps_mode
        intro v m₁ hm₁ _ hv
        cases v.isNull with
        | true => exact hev right m₁ hm₁
        | false => exact At.yield D.keeps_mode hm₁ hv
    | nullsafePipe =>
        apply (hev left m hm).bind D.keeps_mode
        intro v m₁ hm₁ _ hv
        cases v.isNull with
        | true => exact At.yield D.keeps_mode hm₁ (D.knows_plain _ rfl)
        | false =>
            apply (hev right m₁ hm₁).bind D.keeps_mode
            intro callee m₂ hm₂ hmoves hcallee
            apply call_at hev hm₂ hcallee
            intro w hw
            rw [List.mem_singleton.mp hw]
            exact D.knows_stays (D.stays_of_keeps hmoves) hv
    | is => exact typeTest_at hev Value.hasType left right hm
    | isNot => exact typeTest_at hev (fun v t => !v.hasType t) left right hm
    | access => exact member_at hev left right hm
    | _ => exact strict_at hev _ left right hm

/-! ## Matching -/

/-- A pattern that evaluates an operand and compares. -/
theorem comparison_at (test : Value → Bool) (e : Expr) (hm : D.sound m) :
    D.At D.keeps m (fun _ _ => True) ((do return test (← ev e) : Eval Bool) m) :=
  (hev e m hm).bind D.keeps_mode fun _ _ hm₁ _ _ =>
    At.yield D.keeps_mode hm₁ trivial

omit hev in
/-- A pattern that tests the type of the matched value. -/
theorem typePattern_at (test : TypeName → Bool) (operand : Expr) (hm : D.sound m) :
    D.At D.keeps m (fun _ _ => True)
      ((do return test (← Eval.typeOperand operand) : Eval Bool) m) :=
  (typeOperand_at hm operand).bind D.keeps_mode fun _ _ hm₁ _ _ =>
    At.yield D.keeps_mode hm₁ trivial

/-- Matching a pattern keeps the discipline. -/
theorem matchPattern_at (argument : Value) (pattern : Expr) (hm : D.sound m) :
    D.At D.keeps m (fun _ _ => True) (Eval.matchPattern ev argument pattern m) := by
  induction pattern using Eval.matchPattern.induct generalizing m with
  | case1 inner _ ih => exact ih hm
  | case2 left right _ ihLeft ihRight =>
      apply (ihLeft hm).bind D.keeps_mode
      intro b m₁ hm₁ _ _
      cases b with
      | true => exact ihRight hm₁
      | false => exact At.yield D.keeps_mode hm₁ trivial
  | case3 left right _ ihLeft ihRight =>
      apply (ihLeft hm).bind D.keeps_mode
      intro b m₁ hm₁ _ _
      cases b with
      | true => exact At.yield D.keeps_mode hm₁ trivial
      | false => exact ihRight hm₁
  | case4 operand _ => exact typePattern_at argument.hasType operand hm
  | case5 operand _ =>
      exact typePattern_at (fun t => !argument.hasType t) operand hm
  | case6 value _ => exact At.yield D.keeps_mode hm trivial
  | case7 o operand span his hisNot comparison hcomparison =>
      rw [Eval.matchPattern.eq_7 ev argument o operand span his hisNot, hcomparison]
      exact comparison_at hev (Eval.holds comparison argument) operand hm
  | case8 o operand span his hisNot hcomparison =>
      rw [Eval.matchPattern.eq_7 ev argument o operand span his hisNot, hcomparison]
      exact comparison_at hev (Eval.matchValue argument) _ hm
  | case9 pattern h₁ h₂ h₃ h₄ h₅ h₆ h₇ =>
      rw [Eval.matchPattern.eq_8 ev argument pattern h₁ h₂ h₃ h₄ h₅ h₆ h₇]
      exact comparison_at hev (Eval.matchValue argument) pattern hm

/-- The branches of a match keep the discipline. -/
theorem branches_at (argument : Value) (fallback : Option Expr)
    (cases : List Branch) (hm : D.sound m) :
    D.At D.keeps m D.knows (Eval.branches ev argument fallback cases m) := by
  induction cases generalizing fallback m with
  | nil => exact optional_at hev hm .null (D.knows_plain m rfl) fallback
  | cons b rest ih =>
      unfold Eval.branches
      cases b.pattern with
      | none => exact ih _ hm
      | some pattern =>
          apply (matchPattern_at hev argument pattern hm).bind D.keeps_mode
          intro b m₁ hm₁ _ _
          cases b with
          | true => exact hev _ m₁ hm₁
          | false => exact ih fallback hm₁

end Constructs

/-! ## All expressions -/

/-- Every evaluation is disciplined. -/
theorem evaluate_disciplined (D : Discipline g) (fuel : Nat) :
    D.Governs (evaluate g fuel) := by
  induction fuel with
  | zero => exact fun _ m hm => ⟨hm, D.keeps_refl m, trivial⟩
  | succ fuel hev =>
      intro e m hm
      unfold evaluate Eval.layer
      cases e.node with
      | block statements =>
          exact At.inBlock hm (sequence_at hev statements (D.enter _ hm)
            (D.knows_plain _ rfl))
      | conditional branches otherwise =>
          exact alternatives_at hev otherwise branches hm
      | forLoop counter start stop step body =>
          refine (optional_at hev hm (.int 0) (D.knows_plain _ rfl) start).bind
            D.keeps_mode
            fun first m₁ hm₁ _ _ => ?_
          apply (hev stop m₁ hm₁).bind D.keeps_mode
          intro last m₂ hm₂ _ _
          refine (optional_at hev hm₂ (.int 1) (D.knows_plain _ rfl) step).bind
            D.keeps_mode
            fun stride m₃ hm₃ _ _ => ?_
          refine (At.lift (Q := fun _ _ => True) D.keeps_mode hm₃
            fun _ _ => trivial).bind
            D.keeps_mode fun range m₄ hm₄ _ _ => ?_
          exact forLoop_at hev counter body fuel range hm₄
      | whileLoop condition body => exact whileLoop_at hev condition body fuel hm
      | function definition => exact At.close hm definition
      | matching argument branches =>
          apply (hev argument m hm).bind D.keeps_mode
          intro v m₁ hm₁ _ _
          exact branches_at hev v none branches hm₁
      | grouping inner => exact hev inner m hm
      | binary operator left right => exact binary_at hev operator left right hm
      | unary operator operand =>
          apply (hev operand m hm).bind D.keeps_mode
          intro v m₁ hm₁ _ _
          exact At.lift D.keeps_mode hm₁ fun w h =>
            D.knows_plain _ (Value.isPlain_applySign h)
      | call callee arguments =>
          apply (hev callee m hm).bind D.keeps_mode
          intro f m₁ hm₁ _ hf
          apply (all_at hev arguments hm₁).bind D.keeps_mode
          intro values m₂ hm₂ hmoves hvalues
          exact call_at hev hm₂ (D.knows_stays (D.stays_of_keeps hmoves) hf) hvalues
      | name text => exact At.access hm text
      | literal value =>
          exact At.yield D.keeps_mode hm
            (D.knows_plain _ (Value.isPlain_ofLiteral _))
      | cast target operand =>
          apply (hev operand m hm).bind D.keeps_mode
          intro v m₁ hm₁ _ hv
          apply At.lift D.keeps_mode hm₁
          intro w h
          rcases Value.isPlain_cast h with hplain | rfl
          · exact D.knows_plain _ hplain
          · exact hv
      | type target => exact At.yield D.keeps_mode hm (D.knows_plain _ rfl)

/-- Every statement is disciplined. -/
theorem execute_disciplined (D : Discipline g) (fuel : Nat) (s : Stmt) {m : Machine}
    (hm : D.sound m) :
    D.At D.stays m D.knows (execute g fuel s m) :=
  perform_at (evaluate_disciplined D fuel) s.action hm

end Discipline

end ScriptLang
