import Mathlib.Data.List.Forall2
import ScriptLang.Proofs.Eval.Discipline
import ScriptLang.Proofs.Scope.Frames
import ScriptLang.Proofs.Tree.Evaluable
import ScriptLang.Proofs.Tree.Moved

/-!
# Comparing two runs

Two evaluators can be compared by running them side by side, on trees that differ
only in their places and on machines that differ only in the values of variables.  A
`Comparison` says which values correspond: the plain ones to themselves, and a
closure to one over the same frames whose definition has been moved.  It also says
on which machines the comparison holds, by the depth of their stacks and the number
of calls in progress, and whether defects are put up with; if not, only trees that
make sense are compared.

As for disciplines, the laws of a comparison speak of few things
(`Comparison.Laws`), each construct of the language has one lemma, and `layer_at`
puts them together: evaluators that agree on what is nested in an expression agree
on the expression.
-/

namespace ScriptLang

/-- What two runs are compared by. -/
structure Comparison where
  /-- Whether defects are put up with. -/
  lenient : Prop
  /-- The depths of stacks and the numbers of calls in progress at which runs are
  compared. -/
  level : Nat → Nat → Prop
  /-- The maps of positions that may lie between two corresponding trees. -/
  moves : (Position → Position) → Prop
  /-- The functions of the host that may turn up. -/
  trusts : Native → Prop

namespace Comparison

variable (C : Comparison)

/-! ## What corresponds -/

/-- An expression that is compared. -/
def Fit (e : Expr) : Prop := C.lenient ∨ e.Evaluable

/-- A pattern that is compared. -/
def FitPattern (e : Expr) : Prop := C.lenient ∨ e.Matchable

/-- A statement that is compared. -/
def FitStmt (s : Stmt) : Prop := C.lenient ∨ s.Evaluable

/-- A fault that a compared run may end in. -/
def Allows (fault : Fault) : Prop := C.lenient ∨ fault.isDefect = false

/-- Values that correspond. -/
inductive Alike : Value → Value → Prop
  | plain {v : Value} : v.isPlain = true → Alike v v
  | closure {f : Closure} {φ : Position → Position} : C.moves φ →
      C.Fit f.definition.body →
      Alike (.closure f) (.closure { f with definition := f.definition.moved φ })
  | native {f : Native} : C.trusts f → Alike (.native f) (.native f)
  | namespace_ {space : Namespace} :
      (∀ name v, (name, v) ∈ space.members → Alike v v) →
      Alike (.namespace_ space) (.namespace_ space)

/-- Stores with the same frames whose variables hold corresponding values. -/
structure Stores (s s' : Store) : Prop where
  frames_eq : s'.frames = s.frames
  live_eq : s'.live = s.live
  size_eq : s'.cells.size = s.cells.size
  value : ∀ i, C.Alike (s.cell i).value (s'.cell i).value
  const_eq : ∀ i, (s'.cell i).const = (s.cell i).const

/-- Machines on which two runs are compared: only their stores differ. -/
structure Machines (m m' : Machine) : Prop where
  eq_with : m' = { m with store := m'.store }
  store : C.Stores m.store m'.store
  level : C.level m.stack.length m.callDepth

/-- Answers of the host that correspond. -/
inductive Answers : HostAnswer → HostAnswer → Prop
  | value {v v' : Value} : C.Alike v v' → Answers (.value v) (.value v')
  | fault {fault : Fault} : C.Allows fault → Answers (.fault fault) (.fault fault)
  | crash {words : Option String} : C.lenient →
      Answers (.crash words) (.crash words)

/-- What makes two runs in a setting comparable. -/
structure Laws (g : Setting) : Prop where
  level_enter : ∀ {n d}, C.level n d → C.level (n + 1) d
  level_call : ∀ {n d} k, C.level n d → d < g.maxCallDepth → C.level (k + 1) (d + 1)
  grounded : ∀ {n d}, C.level n d → C.lenient ∨ 0 < n
  spaces : ∀ space ∈ g.namespaces, C.Alike (.namespace_ space) (.namespace_ space)
  host :
    ∀ {f : Native} {action : HostProcedure} {arguments arguments' : List Value}
        (console : Console),
    C.trusts f → g.host[f.entry]? = some action →
    f.arity.any (· ≠ arguments.length) = false →
    List.Forall₂ C.Alike arguments arguments' →
    C.Answers (action arguments console).1 (action arguments' console).1 ∧
      (action arguments' console).2 = (action arguments console).2

/-- Outcomes that correspond. -/
inductive Ends (Q : α → α → Prop) : Outcome α → Outcome α → Prop
  | value {a a' : α} : Q a a' → Ends Q (.value a) (.value a')
  | breaking : Ends Q .breaking .breaking
  | returning {v v' : Value} : C.Alike v v' → Ends Q (.returning v) (.returning v')
  | failed {fault : Fault} : C.Allows fault → Ends Q (.failed fault) (.failed fault)
  | crashed {words : Option String} : C.lenient →
      Ends Q (.crashed words) (.crashed words)
  | exhausted : Ends Q .exhausted .exhausted

/-- Two computations, the first of which started on `m`, ended alike, on machines
that are as deep as before. -/
structure At (m : Machine) (Q : α → α → Prop)
    (r r' : Outcome α × Machine) : Prop where
  length_eq : r.2.stack.length = m.stack.length
  callDepth_eq : r.2.callDepth = m.callDepth
  machines : C.Machines r.2 r'.2
  ends : C.Ends Q r.1 r'.1

/-- Evaluators that end alike on corresponding trees. -/
def Agree (ev ev' : Expr → Eval Value) : Prop :=
  ∀ {φ e m m'}, C.moves φ → C.Fit e → C.Machines m m' →
    C.At m C.Alike (ev e m) (ev' (e.moved φ) m')

variable {C} {g : Setting} {m m' : Machine}

/-! ## Values -/

/-- Values that correspond are the same, unless they are closures. -/
theorem Alike.cases_eq {v v' : Value} (h : C.Alike v v') :
    v' = v ∨ ∃ f f', v = .closure f ∧ v' = .closure f' ∧
      f'.identity = f.identity := by
  cases h with
  | plain | native | namespace_ => exact .inl rfl
  | closure => exact .inr ⟨_, _, rfl, rfl, rfl⟩

/-- Alike values are null together. -/
theorem Alike.isNull_eq {v v' : Value} (h : C.Alike v v') :
    v'.isNull = v.isNull := by
  obtain rfl | ⟨f, f', rfl, rfl, _⟩ := h.cases_eq <;> rfl

/-- Alike values are the same boolean, or none. -/
theorem Alike.bool?_eq {v v' : Value} (h : C.Alike v v') : v'.bool? = v.bool? := by
  obtain rfl | ⟨f, f', rfl, rfl, _⟩ := h.cases_eq <;> rfl

/-- Alike values have types with the same name. -/
theorem Alike.typeText_eq {v v' : Value} (h : C.Alike v v') :
    v'.typeText = v.typeText := by
  obtain rfl | ⟨f, f', rfl, rfl, _⟩ := h.cases_eq <;> rfl

/-- Alike values have the same types. -/
theorem Alike.hasType_eq {v v' : Value} (h : C.Alike v v') (target : TypeName) :
    v'.hasType target = v.hasType target := by
  obtain rfl | ⟨f, f', rfl, rfl, _⟩ := h.cases_eq <;> rfl

/-- Alike values are shown in the same way. -/
theorem Alike.text_eq {v v' : Value} (h : C.Alike v v') : v'.text = v.text := by
  obtain rfl | ⟨f, f', rfl, rfl, _⟩ := h.cases_eq <;> rfl

/-- Alike values equal alike values. -/
theorem Alike.same_eq {a a' b b' : Value} (ha : C.Alike a a') (hb : C.Alike b b') :
    a'.same b' = a.same b := by
  obtain rfl | ⟨f, f', rfl, rfl, hf⟩ := ha.cases_eq <;>
    obtain rfl | ⟨k, k', rfl, rfl, hk⟩ := hb.cases_eq
  · rfl
  · cases a' with
    | closure f => simp [Value.same, hk]
    | _ => rfl
  · cases b' with
    | closure f => simp [Value.same, hf]
    | _ => rfl
  · simp [Value.same, hf, hk]

/-- Alike values stand in the same order. -/
theorem Alike.standing_eq {a a' b b' : Value} (ha : C.Alike a a')
    (hb : C.Alike b b') :
    a'.standing b' = a.standing b := by
  obtain rfl | ⟨f, f', rfl, rfl, hf⟩ := ha.cases_eq <;>
    obtain rfl | ⟨k, k', rfl, rfl, hk⟩ := hb.cases_eq
  · rfl
  · cases a' <;> rfl
  · cases b' <;> rfl
  · rfl

/-- Comparing alike values gives the same value. -/
theorem Alike.compare_eq {a a' b b' : Value} (o : Operator) (ha : C.Alike a a')
    (hb : C.Alike b b') :
    a'.compare o b' = a.compare o b := by
  simp only [Value.compare, ha.isNull_eq, hb.isNull_eq, ha.standing_eq hb,
    ha.same_eq hb]

/-- Computing with alike values gives the same value or fault. -/
theorem Alike.arithmetic_eq {a a' b b' : Value} (o : Operator) (ha : C.Alike a a')
    (hb : C.Alike b b') : a'.arithmetic o b' = a.arithmetic o b := by
  obtain rfl | ⟨f, f', rfl, rfl, hf⟩ := ha.cases_eq <;>
    obtain rfl | ⟨k, k', rfl, rfl, hk⟩ := hb.cases_eq
  · rfl
  · cases a' <;> rfl
  · cases b' <;> rfl
  · rfl

/-- Joining alike values to a text gives the same text. -/
theorem Alike.concatenate_eq {a a' b b' : Value} (ha : C.Alike a a')
    (hb : C.Alike b b') :
    a'.concatenate b' = a.concatenate b := by
  obtain rfl | ⟨f, f', rfl, rfl, hf⟩ := ha.cases_eq <;>
    obtain rfl | ⟨k, k', rfl, rfl, hk⟩ := hb.cases_eq
  · rfl
  · cases a' <;> rfl
  · cases b' <;> rfl
  · rfl

/-- Operators give the same on alike operands. -/
theorem Alike.applyBinary_eq {a a' b b' : Value} (o : Operator) (ha : C.Alike a a')
    (hb : C.Alike b b') : a'.applyBinary o b' = a.applyBinary o b := by
  unfold Value.applyBinary
  rw [ha.arithmetic_eq o hb, ha.concatenate_eq hb, ha.compare_eq o hb]

/-- A sign gives the same on alike operands. -/
theorem Alike.applySign_eq {v v' : Value} (o : Operator) (h : C.Alike v v') :
    v'.applySign o = v.applySign o := by
  obtain rfl | ⟨f, f', rfl, rfl, _⟩ := h.cases_eq
  · rfl
  · cases o <;> rfl

/-- Alike bounds and steps give the same range. -/
theorem Alike.range_eq {a a' b b' c c' : Value} (ha : C.Alike a a')
    (hb : C.Alike b b') (hc : C.Alike c c') :
    CounterRange.of a' b' c' = CounterRange.of a b c := by
  obtain rfl | ⟨f, f', rfl, rfl, _⟩ := ha.cases_eq
  · obtain rfl | ⟨f, f', rfl, rfl, _⟩ := hb.cases_eq
    · obtain rfl | ⟨f, f', rfl, rfl, _⟩ := hc.cases_eq
      · rfl
      · cases a' <;> cases b' <;> rfl
    · cases a' <;> rfl
  · rfl

/-- Where every function may turn up, every value corresponds to itself. -/
theorem Alike.refl (hid : C.moves id) (hlenient : C.lenient)
    (htrusts : ∀ f, C.trusts f) :
    ∀ v : Value, C.Alike v v
  | .null | .int _ | .float _ | .bool _ | .string _ => .plain rfl
  | .closure f => by
    have h := Alike.closure (f := f) hid (.inl hlenient)
    rwa [FunctionDef.moved_id] at h
  | .native f => .native (htrusts f)
  | .namespace_ ⟨_, _, members⟩ => .namespace_ fun _ v hmem =>
    have := List.sizeOf_lt_of_mem hmem
    Alike.refl hid hlenient htrusts v
termination_by v => sizeOf v
decreasing_by
  simp only [Value.namespace_.sizeOf_spec, Namespace.mk.sizeOf_spec]
  simp only [Prod.mk.sizeOf_spec] at this
  omega

/-- If trees are moved nowhere, alike values are equal. -/
theorem Alike.eq (hid : ∀ φ, C.moves φ → φ = id) {v v' : Value}
    (h : C.Alike v v') : v' = v := by
  cases h with
  | plain | native | namespace_ => rfl
  | closure hφ =>
      obtain rfl := hid _ hφ
      rw [FunctionDef.moved_id]

/-! ## Operations that can fail -/

/-- Results that correspond. -/
inductive Results (C : Comparison) (Q : α → α → Prop) :
    Except Fault α → Except Fault α → Prop
  | ok {a a' : α} : Q a a' → Results C Q (.ok a) (.ok a')
  | error {fault : Fault} : C.Allows fault →
      Results C Q (.error fault) (.error fault)

/-- An operation that gives plain values and ends in no defect corresponds to
itself. -/
theorem Results.of_plain {result : Except Fault Value}
    (hplain : ∀ v, result = .ok v → v.isPlain = true)
    (hhealthy : C.lenient ∨ Healthy result) : Results C C.Alike result result := by
  cases result with
  | ok v => exact .ok (.plain (hplain v rfl))
  | error fault => exact .error (hhealthy.imp id fun h => h fault rfl)

/-- Casts of alike values. -/
theorem Results.cast {v v' : Value} (target : TypeName) (h : C.Alike v v') :
    Results C C.Alike (v.cast target) (v'.cast target) := by
  have hhealthy := Value.cast_healthy v target
  rcases h with hplain | ⟨hφ, hfit⟩ | htrusts | hmembers
  · refine .of_plain (fun w hw => ?_) (.inr hhealthy)
    rcases Value.isPlain_cast hw with hw | rfl
    · exact hw
    · exact hplain
  · cases target with
    | function => exact .ok (.closure hφ hfit)
    | _ => exact .error (.inr rfl)
  · cases target with
    | function => exact .ok (.native htrusts)
    | _ => exact .error (.inr rfl)
  · cases target <;> exact .error (.inr rfl)

/-- The members of corresponding values correspond. -/
theorem Results.member {v v' : Value} (name : String) (h : C.Alike v v') :
    Results C C.Alike (v.member name) (v'.member name) := by
  rcases h with hplain | ⟨hφ, hfit⟩ | htrusts | hmembers
  · cases v <;> first | exact .error (.inr rfl) | cases hplain
  · exact .error (.inr rfl)
  · exact .error (.inr rfl)
  · rename_i space
    simp only [Value.member]
    cases hmember : space.member? name with
    | none => exact .error (.inr rfl)
    | some w =>
        obtain ⟨before, behind, heq, _⟩ := List.lookup_eq_some_iff.mp hmember
        exact .ok (hmembers name w (by simp [heq]))

/-- A path from alike values leads to alike members. -/
theorem Results.follow {name : String} {v v' : Value} {path : List String}
    (h : C.Alike v v') :
    Results C (fun r r' => r'.1 = r.1 ∧ C.Alike r.2 r'.2) (Eval.follow name v path)
      (Eval.follow name v' path) := by
  induction path generalizing name v v' with
  | nil => exact .ok ⟨rfl, h⟩
  | cons next rest ih =>
      unfold Eval.follow
      have hmember := Results.member next h
      cases hv : v.member next with
      | ok w =>
          rw [hv] at hmember
          cases hv' : v'.member next with
          | ok w' =>
              rw [hv'] at hmember
              cases hmember with
              | ok hw => exact ih hw
          | error fault =>
              rw [hv'] at hmember
              cases hmember
      | error fault =>
          rw [hv] at hmember
          cases hv' : v'.member next with
          | ok w' =>
              rw [hv'] at hmember
              cases hmember
          | error fault' =>
              rw [hv'] at hmember
              cases hmember with
              | error hfault => exact .error hfault

/-- A path leads to alike members in both runs. -/
theorem Results.resolvePath (hC : C.Laws g) {path : List String}
    (hpath : C.lenient ∨ path ≠ []) :
    Results C (fun r r' => r'.1 = r.1 ∧ C.Alike r.2 r'.2) (Eval.resolvePath g path)
      (Eval.resolvePath g path) := by
  cases path with
  | nil =>
      rcases hpath with hlenient | hpath
      · exact .error (.inl hlenient)
      · exact absurd rfl hpath
  | cons first rest =>
      simp only [Eval.resolvePath]
      cases hspace : g.namespaces.find? fun space => space.name = first with
      | none => exact .error (.inr rfl)
      | some space =>
          exact Results.follow (hC.spaces space (List.mem_of_find?_eq_some hspace))

/-! ## Stores -/

/-- Alike stores have the same frames. -/
theorem Stores.frame_eq {s s' : Store} (h : C.Stores s s') (i : Nat) :
    s'.frame i = s.frame i := by
  simp [Store.frame, h.frames_eq]

/-- A name means the same cell in alike stores. -/
theorem Stores.resolve?_eq {s s' : Store} (h : C.Stores s s') (name : String)
    (stack : Stack) :
    s'.resolve? name stack = s.resolve? name stack :=
  Store.resolve?_congr name fun i _ => by rw [h.frame_eq]

/-- In alike stores, the same frames stand inside of a loop. -/
theorem Stores.inLoop_eq {s s' : Store} (h : C.Stores s s') (stack : Stack) :
    s'.inLoop stack = s.inLoop stack := by
  induction stack with
  | nil => rfl
  | cons index outer ih => simp only [Store.inLoop, h.frame_eq, ih]

/-- In alike stores, the same frames stand inside of a function. -/
theorem Stores.inFunction_eq {s s' : Store} (h : C.Stores s s') (stack : Stack) :
    s'.inFunction stack = s.inFunction stack := by
  simp only [Store.inFunction, h.frame_eq]

/-- Alike stores with the same new frame. -/
theorem Stores.addFrame {s s' : Store} (h : C.Stores s s') (frame : Frame) :
    C.Stores (s.addFrame frame).2 (s'.addFrame frame).2 where
  frames_eq := by simp [Store.addFrame, h.frames_eq]
  live_eq := by simp [Store.addFrame, h.frames_eq, h.live_eq]
  size_eq := h.size_eq
  value := h.value
  const_eq := h.const_eq

/-- Alike stores with a new name for alike values. -/
theorem Stores.bindNew {s s' : Store} (h : C.Stores s s') (index : Nat)
    (name : String) {v v' : Value} (hv : C.Alike v v') (const : Bool) :
    C.Stores (s.bindNew index name v const) (s'.bindNew index name v' const) where
  frames_eq := by simp [Store.bindNew, h.frames_eq, h.size_eq]
  live_eq := h.live_eq
  size_eq := by simp [Store.bindNew, h.size_eq]
  value i := by
    rw [Store.cell_bindNew, Store.cell_bindNew, h.size_eq]
    by_cases hi : i = s.cells.size
    · rw [if_pos hi, if_pos hi]
      exact hv
    · rw [if_neg hi, if_neg hi]
      exact h.value i
  const_eq i := by
    rw [Store.cell_bindNew, Store.cell_bindNew, h.size_eq]
    by_cases hi : i = s.cells.size
    · rw [if_pos hi, if_pos hi]
    · rw [if_neg hi, if_neg hi]
      exact h.const_eq i

/-- Alike stores with alike values in one more cell. -/
theorem Stores.assigned {s s' : Store} (h : C.Stores s s') (index : Nat)
    {v v' : Value} (hv : C.Alike v v') :
    C.Stores { s with cells := s.cells.modify index fun x => { x with value := v } }
      { s' with
        cells := s'.cells.modify index fun x => { x with value := v' } } where
  frames_eq := h.frames_eq
  live_eq := h.live_eq
  size_eq := by simp [h.size_eq]
  value i := by
    rw [Store.cell_assigned, Store.cell_assigned, h.size_eq]
    by_cases hi : i = index ∧ i < s.cells.size
    · rw [if_pos hi, if_pos hi]
      exact hv
    · rw [if_neg hi, if_neg hi]
      exact h.value i
  const_eq i := by
    rw [Store.cell_assigned, Store.cell_assigned, h.size_eq]
    by_cases hi : i = index ∧ i < s.cells.size
    · rw [if_pos hi, if_pos hi]
      exact h.const_eq i
    · rw [if_neg hi, if_neg hi]
      exact h.const_eq i

/-- A declaration ends alike in corresponding stores. -/
theorem Stores.declare {s s' : Store} (h : C.Stores s s') (name : String)
    {v v' : Value} (hv : C.Alike v v') (const : Bool) {stack : Stack}
    (hstack : stack = [] → C.Allows Store.emptyStack) :
    Results C (fun _ _ => True) (s.declare name v const stack).1
      (s'.declare name v' const stack).1 ∧
      C.Stores (s.declare name v const stack).2
        (s'.declare name v' const stack).2 := by
  cases stack with
  | nil => exact ⟨.error (hstack rfl), h⟩
  | cons top outer =>
      simp only [Store.declare, h.frame_eq]
      by_cases hfound : ((s.frame top).find? name).isSome = true
      · rw [if_pos hfound, if_pos hfound]
        exact ⟨.error (.inr rfl), h⟩
      · rw [if_neg hfound, if_neg hfound]
        exact ⟨.ok trivial, h.bindNew top name hv const⟩

/-- Alike stores in which a parameter is bound to alike values. -/
theorem Stores.override {s s' : Store} (h : C.Stores s s') (name : String)
    {v v' : Value} (hv : C.Alike v v') (const : Bool) {stack : Stack}
    (hstack : stack = [] → C.Allows Store.emptyStack) :
    Results C (fun _ _ => True) (s.override name v const stack).1
      (s'.override name v' const stack).1 ∧
      C.Stores (s.override name v const stack).2
        (s'.override name v' const stack).2 := by
  cases stack with
  | nil => exact ⟨.error (hstack rfl), h⟩
  | cons top outer => exact ⟨.ok trivial, h.bindNew top name hv const⟩

/-- Alike stores in which alike values are assigned to a name. -/
theorem Stores.assign {s s' : Store} (h : C.Stores s s') (name : String)
    {v v' : Value} (hv : C.Alike v v') (stack : Stack) :
    Results C (fun _ _ => True) (s.assign name v stack).1
      (s'.assign name v' stack).1 ∧
      C.Stores (s.assign name v stack).2 (s'.assign name v' stack).2 := by
  simp only [Store.assign, h.resolve?_eq]
  cases s.resolve? name stack with
  | none => exact ⟨.error (.inr rfl), h⟩
  | some index =>
      simp only [h.const_eq]
      by_cases hconst : (s.cell index).const = true
      · rw [if_pos hconst, if_pos hconst]
        exact ⟨.error (.inr rfl), h⟩
      · rw [if_neg hconst, if_neg hconst]
        exact ⟨.ok trivial, h.assigned index hv⟩

/-! ## Sequencing -/

/-- The second of two machines that are compared, as the first one with another
store. -/
theorem Machines.exists_store (hm : C.Machines m m') :
    ∃ store', m' = { m with store := store' } ∧ C.Stores m.store store' :=
  ⟨m'.store, hm.eq_with, hm.store⟩

/-- Computations that end on machines which are as deep as before and differ in
their stores only. -/
theorem Machines.ending (hm : C.Machines m m') {Q : α → α → Prop} {o o' : Outcome α}
    {m₁ : Machine} {store' : Store} (hends : C.Ends Q o o')
    (hlength : m₁.stack.length = m.stack.length)
    (hdepth : m₁.callDepth = m.callDepth) (hstore : C.Stores m₁.store store') :
    C.At m Q (o, m₁) (o', { m₁ with store := store' }) := by
  refine ⟨hlength, hdepth, ⟨rfl, hstore, ?_⟩, hends⟩
  rw [hlength, hdepth]
  exact hm.level

/-- Computations that leave their machines alone. -/
theorem Machines.ends (hm : C.Machines m m') {Q : α → α → Prop} {o o' : Outcome α}
    (hends : C.Ends Q o o') : C.At m Q (o, m) (o', m') := ⟨rfl, rfl, hm, hends⟩

/-- Results of operations that agree end computations that agree. -/
theorem Machines.lift (hm : C.Machines m m') {Q : α → α → Prop}
    {x x' : Except Fault α} (h : Results C Q x x') :
    C.At m Q (Eval.lift x m) (Eval.lift x' m') := by
  cases h with
  | ok h => exact hm.ends (.value h)
  | error h => exact hm.ends (.failed h)

/-- Computations that go on from machines that were reached before. -/
theorem At.after {Q : α → α → Prop} {m₁ : Machine} {r r' : Outcome α × Machine}
    (h : C.At m₁ Q r r') (hlength : m₁.stack.length = m.stack.length)
    (hdepth : m₁.callDepth = m.callDepth) : C.At m Q r r' :=
  ⟨h.length_eq.trans hlength, h.callDepth_eq.trans hdepth, h.machines, h.ends⟩

/-- Computations that agree, one after the other. -/
theorem At.bind {Q : α → α → Prop} {Q' : β → β → Prop} {p p' : Eval α}
    {next next' : α → Eval β} (hp : C.At m Q (p m) (p' m'))
    (hnext : ∀ {a a' m₁ m₁'}, C.Machines m₁ m₁' → Q a a' →
      C.At m₁ Q' (next a m₁) (next' a' m₁')) :
    C.At m Q' ((p >>= next) m) ((p' >>= next') m') := by
  show C.At m Q' (Eval.andThen p next m) (Eval.andThen p' next' m')
  unfold Eval.andThen
  rcases hrun : p m with ⟨outcome, m₁⟩
  rcases hrun' : p' m' with ⟨outcome', m₁'⟩
  rw [hrun, hrun'] at hp
  obtain ⟨hlength, hdepth, hmachines, hends⟩ := hp
  cases hends with
  | value h => exact (hnext hmachines h).after hlength hdepth
  | breaking => exact ⟨hlength, hdepth, hmachines, .breaking⟩
  | returning h => exact ⟨hlength, hdepth, hmachines, .returning h⟩
  | failed h => exact ⟨hlength, hdepth, hmachines, .failed h⟩
  | crashed h => exact ⟨hlength, hdepth, hmachines, .crashed h⟩
  | exhausted => exact ⟨hlength, hdepth, hmachines, .exhausted⟩

/-- A value that is handed on as it is. -/
theorem At.pure (hm : C.Machines m m') {Q : α → α → Prop} {a a' : α} (h : Q a a') :
    C.At m Q ((Pure.pure a : Eval α) m) ((Pure.pure a' : Eval α) m') :=
  hm.ends (.value h)

/-! ## Primitive operations -/

/-- The value of a name agrees on alike machines. -/
theorem access_at (hm : C.Machines m m') (name : String) :
    C.At m C.Alike (Eval.access name m) (Eval.access name m') := by
  apply hm.lift
  obtain ⟨store', rfl, hstore⟩ := hm.exists_store
  simp only [Store.access, hstore.resolve?_eq]
  cases m.store.resolve? name m.stack with
  | none => exact .error (.inr rfl)
  | some index => exact .ok (hstore.value index)

/-- An operation on the store that agrees on alike stores. -/
theorem update_at (hm : C.Machines m m')
    {operation operation' : Stack → Store → Except Fault Unit × Store}
    (h : Results C (fun _ _ => True) (operation m.stack m.store).1
      (operation' m.stack m'.store).1 ∧ C.Stores (operation m.stack m.store).2
      (operation' m.stack m'.store).2) :
    C.At m (fun _ _ => True) (Eval.update operation m)
      (Eval.update operation' m') := by
  obtain ⟨store', rfl, hstore⟩ := hm.exists_store
  obtain ⟨hresult, hstores⟩ := h
  simp only [Eval.update]
  generalize operation m.stack m.store = done at hresult hstores ⊢
  generalize operation' m.stack store' = done' at hresult hstores ⊢
  obtain ⟨result, t⟩ := done
  obtain ⟨result', t'⟩ := done'
  cases hresult with
  | ok => exact hm.ending (.value trivial) rfl rfl hstores
  | error hfault => exact hm.ending (.failed hfault) rfl rfl hstores

/-- There is a frame to declare names in, unless defects are put up with. -/
theorem allows_emptyStack (hC : C.Laws g) (hm : C.Machines m m')
    (hstack : m.stack = []) :
    C.Allows Store.emptyStack := by
  rcases hC.grounded hm.level with hlenient | hpos
  · exact .inl hlenient
  · rw [hstack] at hpos
    exact absurd hpos (Nat.lt_irrefl 0)

/-- A declaration of alike values agrees on alike machines. -/
theorem declare_at (hC : C.Laws g) (hm : C.Machines m m') (name : String)
    {v v' : Value} (hv : C.Alike v v') (const : Bool) :
    C.At m (fun _ _ => True) (Eval.declare name v const m)
      (Eval.declare name v' const m') :=
  update_at hm (hm.store.declare name hv const (allows_emptyStack hC hm))

/-- A parameter that is bound to alike values agrees on alike machines. -/
theorem override_at (hC : C.Laws g) (hm : C.Machines m m') (name : String)
    {v v' : Value} (hv : C.Alike v v') (const : Bool) :
    C.At m (fun _ _ => True) (Eval.update (Store.override name v const) m)
      (Eval.update (Store.override name v' const) m') :=
  update_at hm (hm.store.override name hv const (allows_emptyStack hC hm))

/-- An assignment of alike values agrees on alike machines. -/
theorem assign_at (hm : C.Machines m m') (name : String) {v v' : Value}
    (hv : C.Alike v v') :
    C.At m (fun _ _ => True) (Eval.update (Store.assign name v) m)
      (Eval.update (Store.assign name v') m') :=
  update_at hm (hm.store.assign name hv m.stack)

/-- A copy of the innermost frame agrees on alike machines. -/
theorem settle_at (hC : C.Laws g) (hm : C.Machines m m') :
    C.At m (fun _ _ => True) (Eval.settle m) (Eval.settle m') := by
  obtain ⟨store', rfl, hstore⟩ := hm.exists_store
  unfold Eval.settle Store.settle
  dsimp only
  cases hstack : m.stack with
  | nil =>
      exact hm.ending (.failed (allows_emptyStack hC hm hstack)) (by rw [hstack])
        rfl hstore
  | cons top outer =>
      dsimp only
      have hsize : store'.frames.size = m.store.frames.size := by
        rw [hstore.frames_eq]
      have hframe := hstore.addFrame (m.store.frame top)
      rw [hstore.frame_eq]
      simp only [Store.addFrame, hsize] at hframe ⊢
      exact hm.ending (.value trivial) (by rw [hstack]; rfl) rfl hframe

/-- A closure over the visible frames agrees on alike machines. -/
theorem close_at {φ : Position → Position} (hφ : C.moves φ) {d : FunctionDef}
    (hd : C.Fit d.body) (hm : C.Machines m m') :
    C.At m C.Alike (Eval.close d m) (Eval.close (d.moved φ) m') := by
  obtain ⟨store', rfl, hstore⟩ := hm.exists_store
  have hclosure : C.Alike (.closure ⟨m.nextIdentity, d, m.stack⟩)
      (.closure ⟨m.nextIdentity, d.moved φ, m.stack⟩) :=
    .closure (f := ⟨m.nextIdentity, d, m.stack⟩) hφ hd
  exact hm.ending (.value hclosure) rfl rfl hstore

theorem checkBreak_at (hm : C.Machines m m') :
    C.At m (fun _ _ => True) (Eval.check Store.checkBreak m)
      (Eval.check Store.checkBreak m') := by
  apply hm.lift
  obtain ⟨store', rfl, hstore⟩ := hm.exists_store
  simp only [Store.checkBreak, hstore.inLoop_eq]
  by_cases hloop : m.store.inLoop m.stack = true
  · rw [if_pos hloop]
    exact .ok trivial
  · rw [if_neg hloop]
    exact .error (.inr rfl)

theorem checkReturn_at (hm : C.Machines m m') :
    C.At m (fun _ _ => True) (Eval.check Store.checkReturn m)
      (Eval.check Store.checkReturn m') := by
  apply hm.lift
  obtain ⟨store', rfl, hstore⟩ := hm.exists_store
  simp only [Store.checkReturn, hstore.inFunction_eq]
  by_cases hfunction : m.store.inFunction m.stack = true
  · rw [if_pos hfunction]
    exact .ok trivial
  · rw [if_neg hfunction]
    exact .error (.inr rfl)

/-! ## Scopes -/

/-- Alike machines that enter a scope are alike. -/
theorem Machines.enter (hC : C.Laws g) (hm : C.Machines m m') (kind : FrameKind) :
    C.Machines (m.enter kind) (m'.enter kind) := by
  obtain ⟨store', rfl, hstore⟩ := hm.exists_store
  refine ⟨?_, hstore.addFrame ⟨kind, []⟩, hC.level_enter hm.level⟩
  simp [Machine.enter, Store.push, Store.addFrame, hstore.frames_eq]

/-- Computations that agree inside of a scope agree as a whole. -/
theorem inScope_at (hm : C.Machines m m') {Q : α → α → Prop} {p p' : Eval α}
    {kind : FrameKind}
    (hp : C.At (m.enter kind) Q (p (m.enter kind)) (p' (m'.enter kind))) :
    C.At m Q (Eval.inScope kind p m) (Eval.inScope kind p' m') := by
  have hstack : m'.stack = m.stack := by rw [hm.eq_with]
  rw [Eval.inScope_eq, Eval.inScope_eq, hstack]
  obtain ⟨hlength, hdepth, hmachines, hends⟩ := hp
  have hinside : (m.enter kind).stack.length = m.stack.length + 1 := rfl
  rw [hmachines.eq_with]
  refine hm.ending hends ?_ hdepth hmachines.store
  show (Stack.truncate m.stack.length (p (m.enter kind)).2.stack).length =
    m.stack.length
  unfold Stack.truncate
  rw [List.length_drop, hlength, hinside]
  omega

/-- Alike machines that enter a call are alike. -/
theorem Machines.enterCall (hC : C.Laws g) (hm : C.Machines m m') (captured : Stack)
    (hdepth : m.callDepth < g.maxCallDepth) :
    C.Machines (m.enterCall captured) (m'.enterCall captured) := by
  obtain ⟨store', rfl, hstore⟩ := hm.exists_store
  refine ⟨?_, hstore.addFrame ⟨.function, []⟩,
    hC.level_call captured.length hm.level hdepth⟩
  simp [Machine.enterCall, Store.push, Store.addFrame, hstore.frames_eq]

/-- A call ends every `return` and every `break` of the body. -/
theorem inCall_at (hm : C.Machines m m') {p p' : Eval Value} {captured : Stack}
    (hp : C.At (m.enterCall captured) C.Alike (p (m.enterCall captured))
      (p' (m'.enterCall captured))) :
    C.At m C.Alike (Eval.inCall captured (Eval.absorbing p) m)
      (Eval.inCall captured (Eval.absorbing p') m') := by
  have hstack : m'.stack = m.stack := by rw [hm.eq_with]
  rw [Eval.inCall_eq, Eval.inCall_eq, hstack]
  unfold Eval.absorbing
  rcases hrun : p (m.enterCall captured) with ⟨outcome, m₁⟩
  rcases hrun' : p' (m'.enterCall captured) with ⟨outcome', m₁'⟩
  rw [hrun, hrun'] at hp
  obtain ⟨_, hdepth, hmachines, hends⟩ := hp
  have hdepth' : m₁.callDepth = m.callDepth + 1 := hdepth
  obtain ⟨store', rfl, hstore⟩ := hmachines.exists_store
  have hleave : ∀ {o o' : Outcome Value}, C.Ends C.Alike o o' →
      C.At m C.Alike (o, m₁.leaveCall m.stack)
        (o', Machine.leaveCall m.stack { m₁ with store := store' }) := by
    intro o o' hends
    refine hm.ending hends rfl ?_ hstore
    show m₁.callDepth - 1 = m.callDepth
    omega
  cases hends with
  | value h => exact hleave (.value h)
  | breaking => exact hleave (.value (.plain rfl))
  | returning h => exact hleave (.value h)
  | failed h => exact hleave (.failed h)
  | crashed h => exact hleave (.crashed h)
  | exhausted => exact hleave .exhausted

/-! ## Comparisons that move nothing -/

/-- If trees are moved nowhere, alike stores are equal. -/
theorem Stores.eq (hid : ∀ φ, C.moves φ → φ = id) {s s' : Store}
    (h : C.Stores s s') : s' = s := by
  have hcells : s'.cells = s.cells := by
    apply Array.ext h.size_eq
    intro i hi' hi
    have hvalue := (h.value i).eq hid
    have hconst := h.const_eq i
    simp only [Store.cell, Array.getElem?_eq_getElem, hi, hi', Option.getD_some]
      at hvalue hconst
    rcases hcell : s.cells[i] with ⟨value, const⟩
    rcases hcell' : s'.cells[i] with ⟨value', const'⟩
    rw [hcell, hcell'] at hvalue hconst
    simp only at hvalue hconst
    rw [hvalue, hconst]
  obtain ⟨cells, frames, live⟩ := s
  obtain ⟨cells', frames', live'⟩ := s'
  have hframes := h.frames_eq
  have hlive := h.live_eq
  simp only at hcells hframes hlive
  rw [hcells, hframes, hlive]

/-- Runs that are compared up to no change of places end the same. -/
theorem At.eq (hid : ∀ φ, C.moves φ → φ = id) {r r' : Outcome Value × Machine}
    (h : C.At m C.Alike r r') : r' = r := by
  obtain ⟨outcome, m₁⟩ := r
  obtain ⟨outcome', m₁'⟩ := r'
  obtain ⟨_, _, hmachines, hends⟩ := h
  obtain ⟨store', rfl, hstore⟩ := hmachines.exists_store
  obtain rfl := hstore.eq hid
  cases hends with
  | value hv => rw [hv.eq hid]
  | returning hv => rw [hv.eq hid]
  | _ => rfl

end Comparison

end ScriptLang
