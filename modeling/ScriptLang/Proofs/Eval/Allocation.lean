import ScriptLang.Proofs.Eval.Scoping

/-!
# Closures name frames that were given out

A closure is a definition with the indices of the frames it was formed in.  Nothing
keeps a value from carrying an index that no frame has yet, and a frame that is
added later would then turn up inside that closure.  This module shows that no run
gets there: on a `Machine.Sound` machine the frames of the stack and of every
closure in a variable have been given out, and evaluation, statement by statement,
stays on sound machines and hands on only such closures.

Closures can also come from outside, inside the namespaces of a setting and from
host functions.  An `Honest` host returns no closure that it was not given.
-/

namespace ScriptLang

/-- The closures that can be taken out of a value. -/
inductive Value.Holds : Value → Closure → Prop
  | closure (f : Closure) : Holds (.closure f) f
  | member {space : Namespace} {name : String} {v : Value} {f : Closure} :
      (name, v) ∈ space.members → v.Holds f → Holds (.namespace_ space) f

/-- What is found in a namespace is one of its members. -/
theorem Namespace.mem_of_member? {space : Namespace} {name : String} {v : Value}
    (h : space.member? name = some v) : (name, v) ∈ space.members := by
  obtain ⟨before, behind, hmembers, _⟩ := List.lookup_eq_some_iff.mp h
  simp [hmembers]

/-- A plain value holds no closure. -/
theorem Value.not_holds_of_isPlain {v : Value} (h : v.isPlain = true)
    (f : Closure) : ¬ v.Holds f := by
  intro hf
  cases hf <;> cases h

/-- Every closure in a value was formed over frames that have been given out. -/
def Store.Knows (s : Store) (v : Value) : Prop :=
  ∀ f, v.Holds f → s.Given f.captured

/-- What is known stays known when frames are added. -/
theorem Store.Knows.mono {s t : Store} {v : Value} (h : s.Knows v)
    (hsize : s.frames.size ≤ t.frames.size) : t.Knows v :=
  fun f hf => (h f hf).mono hsize

/-- A plain value refers to no frame. -/
theorem Store.knows_of_isPlain (s : Store) {v : Value}
    (h : v.isPlain = true) : s.Knows v :=
  fun f hf => absurd hf (Value.not_holds_of_isPlain h f)

/-- A host whose functions return only closures that they were given. -/
def Setting.Honest (g : Setting) : Prop :=
  ∀ action ∈ g.host, ∀ arguments console v,
    (action arguments console).1 = .value v →
    ∀ f, v.Holds f → ∃ a ∈ arguments, a.Holds f

/-- A machine that a run can be on: there is a frame to declare names in, all frames
that the stack, the variables and the namespaces name have been given out, and so
have all variables that the frames name. -/
structure Machine.Sound (g : Setting) (m : Machine) : Prop where
  inhabited : m.stack ≠ []
  given : m.store.Given m.stack
  bound : m.store.Bound
  knows : ∀ index, m.store.Knows (m.store.cell index).value
  spaces : ∀ space ∈ g.namespaces, m.store.Knows (.namespace_ space)

namespace Machine

variable {g : Setting} {m : Machine}

/-- A sound machine whose frames and variables stay, while frames are added. -/
theorem Sound.transfer {m' : Machine} (hm : m.Sound g) (hstack : m'.stack ≠ [])
    (hgiven : m'.store.Given m'.stack) (hbound : m'.store.Bound)
    (hsize : m.store.frames.size ≤ m'.store.frames.size)
    (hknows : ∀ index, m'.store.Knows (m'.store.cell index).value) :
    m'.Sound g where
  inhabited := hstack
  given := hgiven
  bound := hbound
  knows := hknows
  spaces space hspace := (hm.spaces space hspace).mono hsize

/-! ## Variables -/

/-- With a new frame, the store still knows what its cells hold. -/
theorem knows_cell_addFrame (hm : m.Sound g) (frame : Frame) (index : Nat) :
    (m.store.addFrame frame).2.Knows
      ((m.store.addFrame frame).2.cell index).value :=
  (hm.knows index).mono (Store.grows_addFrame frame m.store).size_le

/-- With a new name, the store still knows what its cells hold. -/
theorem knows_cell_bindNew (hm : m.Sound g) {v : Value} (hv : m.store.Knows v)
    (top : Nat) (name : String) (const : Bool) (index : Nat) :
    (m.store.bindNew top name v const).Knows
      ((m.store.bindNew top name v const).cell index).value := by
  refine Store.Knows.mono (s := m.store) ?_ (by simp)
  by_cases hindex : index = m.store.cells.size
  · simpa [Store.cell, Store.bindNew, hindex] using hv
  · have hcell := hm.knows index
    simpa [Store.cell, Store.bindNew, Array.getElem?_push, hindex] using hcell

/-- Binding a known value to a new name keeps a machine sound. -/
theorem sound_bindNew (hm : m.Sound g) {v : Value} (hv : m.store.Knows v)
    (top : Nat) (name : String) (const : Bool) : 
    Sound g { m with store := m.store.bindNew top name v const } := by
  have hsize : m.store.frames.size ≤
    (m.store.bindNew top name v const).frames.size := by simp
  exact hm.transfer hm.inhabited (hm.given.mono hsize)
    (hm.bound.bindNew top name v const) hsize
    (knows_cell_bindNew hm hv top name const)

/-- A declaration of a known value keeps a machine sound. -/
theorem sound_declare (hm : m.Sound g) {v : Value} (hv : m.store.Knows v)
    (name : String) (const : Bool) :
    (m.updated (Store.declare name v const)).Sound g :=
  updated_declare (P := Sound g) hm fun top _ _ _ =>
    sound_bindNew hm hv top name const

/-- A parameter with a known value keeps a machine sound. -/
theorem sound_override (hm : m.Sound g) {v : Value} (hv : m.store.Knows v)
    (name : String) (const : Bool) :
    (m.updated (Store.override name v const)).Sound g :=
  updated_override (P := Sound g) hm fun top _ _ =>
    sound_bindNew hm hv top name const

/-- An assignment of a known value keeps a machine sound. -/
theorem sound_assign (hm : m.Sound g) {v : Value} (hv : m.store.Knows v)
    (name : String) :
    (m.updated (Store.assign name v)).Sound g := by
  rcases Store.assign_cases name v m.stack
    m.store with ⟨fault, hassign⟩ | ⟨index, _, hassign⟩
  · rw [updated_of_eq hassign]
    exact hm
  · rw [updated_of_eq hassign]
    refine hm.transfer hm.inhabited hm.given ?_ (Nat.le_refl _) ?_
    · intro i other cell hfound
      simpa using hm.bound i other cell hfound
    intro i
    refine Store.Knows.mono (s := m.store) ?_ (Nat.le_refl _)
    have hcell := hm.knows i
    by_cases hi : i < m.store.cells.size
    · by_cases heq : index = i
      · simpa [Store.cell, heq, hi, Array.getElem_modify] using hv
      · simpa [Store.cell, hi, Array.getElem_modify, heq] using hcell
    · simpa [Store.cell, hi] using hcell

/-! ## Frames -/

/-- A frame pushed on given frames makes a sound machine. -/
theorem sound_push (hm : m.Sound g) (kind : FrameKind) {stack : Stack}
    (hstack : m.store.Given stack) {m' : Machine}
    (hstack' : m'.stack = (m.store.push kind stack).1)
    (hstore : m'.store = (m.store.push kind stack).2) : m'.Sound g := by
  have hgrows := Store.grows_addFrame ⟨kind, []⟩ m.store
  refine hm.transfer (by rw [hstack']; exact List.cons_ne_nil _ _) ?_ ?_ ?_ ?_
  · rw [hstack', hstore]
    refine Store.Given.cons ?_ (hstack.mono hgrows.size_le)
    show m.store.frames.size < (m.store.addFrame ⟨kind, []⟩).2.frames.size
    rw [Store.size_addFrame]
    exact Nat.lt_succ_self _
  · rw [hstore]
    exact hm.bound.addFrame fun name cell hfound => by cases hfound
  · rw [hstore]
    exact hgrows.size_le
  · rw [hstore]
    exact knows_cell_addFrame hm _

/-- Copying the innermost frame keeps a machine sound. -/
theorem sound_settled (hm : m.Sound g) : m.settled.Sound g := by
  unfold settled
  rcases m.settle_cases with ⟨_, hsettle⟩ | ⟨top, outer, hstack, hsettle⟩
  · rw [hsettle]
    exact hm
  · rw [hsettle]
    have hgrows := Store.grows_addFrame (m.store.frame top) m.store
    have houter : m.store.Given outer :=
      fun i hi => hm.given i (hstack ▸ List.mem_cons_of_mem _ hi)
    refine hm.transfer (List.cons_ne_nil _ _) ?_ (hm.bound.addFrame (hm.bound top))
      hgrows.size_le
      (knows_cell_addFrame hm _)
    refine Store.Given.cons ?_ (houter.mono hgrows.size_le)
    show m.store.frames.size < (m.store.addFrame (m.store.frame top)).2.frames.size
    rw [Store.size_addFrame]
    exact Nat.lt_succ_self _

/-- Going back to a stack whose frames were given out before. -/
theorem Sound.back {m' : Machine} (hm : m.Sound g) (hm' : m'.Sound g)
    {m'' : Machine} (hstack : m''.stack = m.stack) (hstore : m''.store = m'.store)
    (hsize : m.store.frames.size ≤ m'.store.frames.size) : m''.Sound g := by
  refine ⟨hstack ▸ hm.inhabited, ?_, hstore ▸ hm'.bound, hstore ▸ hm'.knows,
    hstore ▸ hm'.spaces⟩
  rw [hstack, hstore]
  exact hm.given.mono hsize

end Machine

/-! ## Evaluation -/

/-- Evaluation stays on sound machines and hands on only closures over frames that
were given out. -/
def allocation {g : Setting} (hg : g.Honest) : Discipline g :=
  { scoping g with
    sound := Machine.Sound g
    knows := fun m v => m.store.Knows v
    knows_stays := fun h hv => hv.mono h.size_le
    knows_plain := fun m _ h => m.store.knows_of_isPlain h
    knows_member :=
      fun h hmember f hf => h f (.member (Namespace.mem_of_member? hmember) hf)
    knows_space := fun hm hspace => hm.spaces _ hspace
    knows_cell := fun hm _ => hm.knows _
    assign := fun hm hv => ⟨Machine.sound_assign hm hv _, Machine.kept_assign _ _ _⟩
    close := fun _ hm => by
      refine ⟨⟨hm.inhabited, hm.given, hm.bound, hm.knows, hm.spaces⟩,
        ⟨rfl, rfl, Store.Grows.refl _⟩, ?_⟩
      intro f hf
      cases hf
      exact hm.given
    host := fun {m _ action arguments} hm _ haction harguments => by
      refine ⟨⟨hm.inhabited, hm.given, hm.bound, hm.knows, hm.spaces⟩,
        ⟨rfl, rfl, Store.Grows.refl _⟩, ?_⟩
      intro v hv f hf
      obtain ⟨a, ha, hheld⟩ :=
        hg action (Array.mem_of_getElem? haction) arguments m.console v hv f hf
      exact harguments a ha f hheld
    declare :=
      fun hm hv => ⟨Machine.sound_declare hm hv _ _,
        Machine.extended_declare _ _ _ _⟩
    override :=
      fun hm hv => ⟨Machine.sound_override hm hv _ _,
        Machine.extended_override _ _ _ _⟩
    settle := fun hm => ⟨Machine.sound_settled hm, Machine.extended_settled _⟩
    enter := fun kind hm => Machine.sound_push hm kind hm.given rfl rfl
    knows_enter := fun _ hv => hv.mono (Store.grows_addFrame _ _).size_le
    leave := fun hm hm' h =>
      have hkept := Machine.kept_leave h
      ⟨hm.back hm' hkept.stack_eq rfl hkept.grows.size_le, hkept⟩
    knows_leave := fun _ hv => hv
    enterCall :=
      fun hm hf _ => Machine.sound_push hm .function (hf _ (.closure _)) rfl rfl
    knows_enterCall := fun _ hv => hv.mono (Store.grows_addFrame _ _).size_le
    leaveCall := fun hm hm' _ h =>
      have hkept := Machine.kept_leaveCall h
      ⟨hm.back hm' hkept.stack_eq rfl hkept.grows.size_le, hkept⟩
    knows_leaveCall := fun _ hv => hv
    checkBreak := fun _ _ => trivial
    checkReturn := fun _ _ => trivial }

/-- A statement leads from sound machines to sound machines. -/
theorem execute_sound {g : Setting} (hg : g.Honest) (fuel : Nat) (s : Stmt)
    {m : Machine} (hm : m.Sound g) : (execute g fuel s m).2.Sound g :=
  ((allocation hg).execute_disciplined fuel s (m := m) hm).sound

end ScriptLang
