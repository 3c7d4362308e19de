import ScriptLang.Proofs.Eval.Restoration
import Mathlib.Logic.Relation

/-!
# What a call can reach

Frames lead to the variables of their names, variables to what they hold, and
closures to the frames that they were formed in; namespaces lead to their members,
and functions of the host to values of their own.  The heap that this makes is
cyclic, and it grows while a call runs.

All that a call gets its hands on can be reached from the frames of the closure,
from the arguments or from the namespaces that can be pulled, or was created in the
meantime.  A `Confinement` is what belongs to a call in this sense, and a machine is
`Confined` when nothing leads out of it.  So the variables that are out of reach are
left alone, and nothing out of reach is handed back.
-/

namespace ScriptLang

/-! ## Reachability -/

/-- What a value or a variable can lead to. -/
inductive Thing
  | frame (index : Nat)
  | cell (index : Nat)
  | closure (function : Closure)
  | native (function : Native)
  | space (space : Namespace)

/-- The thing that a value is, unless it is plain. -/
def Value.thing? : Value → Option Thing
  | .closure f => some (.closure f)
  | .native f => some (.native f)
  | .namespace_ space => some (.space space)
  | _ => none

/-- A plain value is no thing that others can share. -/
theorem Value.thing?_of_isPlain {v : Value} (h : v.isPlain = true) :
    v.thing? = none := by
  cases v with
  | closure f | native f | namespace_ space => cases h
  | _ => rfl

/-- What one thing leads to in a store.  The values that functions of the host keep
are not part of the store: `carries` says which these are. -/
inductive Thing.Leads (carries : Native → List Value) (s : Store) :
    Thing → Thing → Prop
  | name {i c : Nat} {name : String} :
      (s.frame i).find? name = some c → Leads carries s (.frame i) (.cell c)
  | value {c : Nat} {t : Thing} :
      (s.cell c).value.thing? = some t → Leads carries s (.cell c) t
  | captured {f : Closure} {i : Nat} :
      i ∈ f.captured → Leads carries s (.closure f) (.frame i)
  | carried {f : Native} {v : Value} {t : Thing} :
      v ∈ carries f → v.thing? = some t → Leads carries s (.native f) t
  | member {space : Namespace} {name : String} {v : Value} {t : Thing} :
      (name, v) ∈ space.members → v.thing? = some t →
        Leads carries s (.space space) t

/-- What can be reached from some of the roots. -/
def Reaches (carries : Native → List Value) (s : Store) (roots : Thing → Prop)
    (t : Thing) : Prop :=
  ∃ root, roots root ∧ Relation.ReflTransGen (Thing.Leads carries s) root t

namespace Reaches

variable {carries : Native → List Value} {s : Store} {roots : Thing → Prop}
  {t u : Thing}

/-- The roots are reached. -/
theorem root (h : roots t) : Reaches carries s roots t := ⟨t, h, .refl⟩

/-- What a reached thing leads to is reached. -/
theorem tail (h : Reaches carries s roots t) (hleads : t.Leads carries s u) :
    Reaches carries s roots u := by
  obtain ⟨root, hroot, hpath⟩ := h
  exact ⟨root, hroot, hpath.tail hleads⟩

/-- Nothing is reached outside of a region that has the roots in it and that nothing
leads out of. -/
theorem inside {P : Thing → Prop} (h : Reaches carries s roots t)
    (hroots : ∀ root, roots root → P root)
    (hclosed : ∀ t u, P t → t.Leads carries s u → P u) : P t := by
  obtain ⟨root, hroot, hpath⟩ := h
  induction hpath with
  | refl => exact hroots root hroot
  | tail _ hleads ih => exact hclosed _ _ ih hleads

end Reaches

/-- A host whose functions answer with plain values, or with what can be reached
from their arguments or from themselves.  They see nothing of the store, so it has
to be so in every store. -/
def Setting.Contained (g : Setting) (carries : Native → List Value) : Prop :=
  ∀ (f : Native) (action : HostProcedure), g.host[f.entry]? = some action →
    ∀ arguments console v, (action arguments console).1 = .value v →
      ∀ t, v.thing? = some t → ∀ s,
        Reaches carries s (fun root => root = .native f ∨ ∃ a ∈ arguments,
          a.thing? = some root) t

/-! ## What belongs to a call -/

/-- The first machine has not more frames, variables and identities given out than
the second one. -/
structure Machine.Precedes (m m' : Machine) : Prop where
  frames_le : m.store.frames.size ≤ m'.store.frames.size
  cells_le : m.store.cells.size ≤ m'.store.cells.size
  identity_le : m.nextIdentity ≤ m'.nextIdentity

theorem Machine.Precedes.refl (m : Machine) : m.Precedes m :=
  ⟨Nat.le_refl _, Nat.le_refl _, Nat.le_refl _⟩

/-- What is earlier than earlier is earlier. -/
theorem Machine.Precedes.trans {a b c : Machine} (hab : a.Precedes b)
    (hbc : b.Precedes c) :
    a.Precedes c where
  frames_le := Nat.le_trans hab.frames_le hbc.frames_le
  cells_le := Nat.le_trans hab.cells_le hbc.cells_le
  identity_le := Nat.le_trans hab.identity_le hbc.identity_le

/-- A machine that extends another one comes after it. -/
theorem Machine.Extended.precedes {m m' : Machine} (h : m.Extended m')
    (hidentity : m'.nextIdentity = m.nextIdentity) : m.Precedes m' :=
  ⟨h.size_le, h.cells_le, Nat.le_of_eq hidentity.symm⟩

/-- To enter a scope is to go on. -/
theorem Machine.precedes_enter (kind : FrameKind) (m : Machine) :
    m.Precedes (m.enter kind) :=
  ⟨(Store.grows_addFrame _ m.store).size_le, Nat.le_refl _, Nat.le_refl _⟩

/-- To enter a call is to go on. -/
theorem Machine.precedes_enterCall (captured : Stack) (m : Machine) :
    m.Precedes (m.enterCall captured) :=
  ⟨(Store.grows_addFrame _ m.store).size_le, Nat.le_refl _, Nat.le_refl _⟩

/-- A thing was given out after one machine and before another.  Nothing creates
functions of the host and namespaces in a run. -/
def Thing.CreatedBetween (m m' : Machine) : Thing → Prop
  | .frame i => m.store.frames.size ≤ i ∧ i < m'.store.frames.size
  | .cell c => m.store.cells.size ≤ c ∧ c < m'.store.cells.size
  | .closure f => m.nextIdentity ≤ f.identity ∧ f.identity < m'.nextIdentity
  | .native _ | .space _ => False

/-- What has been created stays created. -/
theorem Thing.CreatedBetween.mono {m m' m'' : Machine} {t : Thing}
    (h : t.CreatedBetween m m') (hle : m'.Precedes m'') :
    t.CreatedBetween m m'' := by
  obtain ⟨hframes, hcells, hidentity⟩ := hle
  cases t with
  | frame i => exact ⟨h.1, Nat.lt_of_lt_of_le h.2 hframes⟩
  | cell c => exact ⟨h.1, Nat.lt_of_lt_of_le h.2 hcells⟩
  | closure f => exact ⟨h.1, Nat.lt_of_lt_of_le h.2 hidentity⟩
  | native f | space space => exact h

/-- A machine to start on and roots to reach things from. -/
structure Confinement where
  carries : Native → List Value
  start : Machine
  roots : Thing → Prop

namespace Confinement

variable (C : Confinement)

/-- What can be reached from the roots before anything was run. -/
def Reached (t : Thing) : Prop := Reaches C.carries C.start.store C.roots t

/-- What can be reached from the roots or was created since, where a closure that
was created must have been formed in such frames. -/
def Owns (m : Machine) (t : Thing) : Prop :=
  C.Reached t ∨ t.CreatedBetween C.start m ∧
    ∀ f, t = .closure f → ∀ i ∈ f.captured, C.Reached (.frame i) ∨
      (Thing.frame i).CreatedBetween C.start m

/-- The values that belong to a call. -/
def Knows (m : Machine) (v : Value) : Prop := ∀ t, v.thing? = some t → C.Owns m t

variable {C} {m m' : Machine} {t u : Thing}

/-- What is owned stays owned. -/
theorem Owns.mono (h : C.Owns m t) (hle : m.Precedes m') : C.Owns m' t := by
  rcases h with hreached | ⟨hcreated, hcaptured⟩
  · exact .inl hreached
  · refine .inr ⟨hcreated.mono hle, ?_⟩
    intro f hf i hi
    rcases hcaptured f hf i hi with hreached | hframe
    · exact .inl hreached
    · exact .inr (hframe.mono hle)

/-- A frame is owned if it was reached from the start or is new. -/
theorem owns_frame_iff {i : Nat} :
    C.Owns m (.frame i) ↔ C.Reached (.frame i) ∨
      (Thing.frame i).CreatedBetween C.start m := by
  simp [Owns]

/-- A cell is owned if it was reached from the start or is new. -/
theorem owns_cell_iff {c : Nat} :
    C.Owns m (.cell c) ↔ C.Reached (.cell c) ∨
      (Thing.cell c).CreatedBetween C.start m := by
  simp [Owns]

/-- A frame that has been given out before belonged to the call before. -/
theorem Owns.frame_of_lt {i : Nat} (h : C.Owns m' (.frame i))
    (hlt : i < m'.store.frames.size → i < m.store.frames.size) :
    C.Owns m (.frame i) := by
  rw [owns_frame_iff] at h ⊢
  exact h.imp_right fun hcreated => ⟨hcreated.1, hlt hcreated.2⟩

/-- A cell that is owned and existed before was owned before. -/
theorem Owns.cell_of_lt {c : Nat} (h : C.Owns m' (.cell c))
    (hlt : c < m'.store.cells.size → c < m.store.cells.size) :
    C.Owns m (.cell c) := by
  rw [owns_cell_iff] at h ⊢
  exact h.imp_right fun hcreated => ⟨hcreated.1, hlt hcreated.2⟩

/-- The frames that an owned closure has captured are owned. -/
theorem Owns.captured {f : Closure} (h : C.Owns m (.closure f)) {i : Nat}
    (hi : i ∈ f.captured) :
    C.Owns m (.frame i) := by
  rcases h with hreached | ⟨_, hcaptured⟩
  · exact .inl (hreached.tail (.captured hi))
  · exact owns_frame_iff.mpr (hcaptured f rfl i hi)

/-- A function of the host is not created, so it was reached from the start. -/
theorem Owns.native {f : Native} (h : C.Owns m (.native f)) :
    C.Reached (.native f) := by
  rcases h with hreached | ⟨hcreated, _⟩
  · exact hreached
  · cases hcreated

/-- A namespace is not created, so it was reached from the start. -/
theorem Owns.space {space : Namespace} (h : C.Owns m (.space space)) :
    C.Reached (.space space) := by
  rcases h with hreached | ⟨hcreated, _⟩
  · exact hreached
  · cases hcreated

/-- What is known stays known. -/
theorem Knows.mono {v : Value} (h : C.Knows m v)
    (hle : m.Precedes m') : C.Knows m' v :=
  fun t ht => (h t ht).mono hle

/-- Nothing leads out of what belongs to the call: neither from the visible frames,
nor from the names of frames, nor from what variables hold.  The other variables are
as they were at the start. -/
structure Confined (C : Confinement) (m : Machine) : Prop where
  precedes : C.start.Precedes m
  visible : ∀ i ∈ m.stack, C.Owns m (.frame i)
  names : ∀ i name c, C.Owns m (.frame i) → (m.store.frame i).find? name = some c →
    C.Owns m (.cell c)
  values : ∀ c, C.Owns m (.cell c) → C.Knows m (m.store.cell c).value
  others : ∀ c, c < C.start.store.cells.size → ¬ C.Reached (.cell c) →
    m.store.cell c = C.start.store.cell c

/-- What is owned leads to what is owned only. -/
theorem Confined.leads (hm : C.Confined m) (ht : C.Owns m t)
    (hleads : t.Leads C.carries m.store u) :
    C.Owns m u := by
  cases hleads with
  | name hfound => exact hm.names _ _ _ ht hfound
  | value hvalue => exact hm.values _ ht _ hvalue
  | captured hi => exact ht.captured hi
  | carried hv hu => exact .inl (ht.native.tail (.carried hv hu))
  | member hv hu => exact .inl (ht.space.tail (.member hv hu))

/-- What can be reached from things that belong to the call belongs to it. -/
theorem Confined.reaches {roots : Thing → Prop} (hm : C.Confined m)
    (hroots : ∀ root, roots root → C.Owns m root)
    (h : Reaches C.carries m.store roots t) : C.Owns m t :=
  h.inside hroots fun _ _ ht hleads => hm.leads ht hleads

/-! ## The primitive operations -/

/-- A variable that a visible name means belongs to the call. -/
theorem Confined.resolve? (hm : C.Confined m) {name : String} {c : Nat}
    (h : m.store.resolve? name m.stack = some c) : C.Owns m (.cell c) := by
  obtain ⟨i, hi, hfound⟩ := Store.exists_of_resolve? h
  exact hm.names i name c (hm.visible i hi) hfound

/-- Another stack may be put in place if its frames belong to the call. -/
theorem Confined.restacked (hm : C.Confined m) (hstore : m'.store = m.store)
    (hidentity : m.nextIdentity ≤ m'.nextIdentity)
    (hstack : ∀ i ∈ m'.stack, C.Owns m (.frame i)) :
    C.Confined m' := by
  have hle : m.Precedes m' :=
    ⟨Nat.le_of_eq (by rw [hstore]), Nat.le_of_eq (by rw [hstore]), hidentity⟩
  refine ⟨hm.precedes.trans hle, fun i hi => (hstack i hi).mono hle, ?_, ?_, ?_⟩
  · intro i name c hi hfound
    have hi' : C.Owns m (.frame i) := hi.frame_of_lt (by rw [hstore]; exact id)
    rw [hstore] at hfound
    exact (hm.names i name c hi' hfound).mono hle
  · intro c hc
    have hc' : C.Owns m (.cell c) := hc.cell_of_lt (by rw [hstore]; exact id)
    rw [hstore]
    exact (hm.values c hc').mono hle
  · rw [hstore]
    exact hm.others

/-- A new frame may bind only variables that belong to the call. -/
theorem Confined.addFrame (hm : C.Confined m) {frame : Frame}
    (hframe : ∀ name c, frame.find? name = some c → C.Owns m (.cell c))
    (hstore : m'.store = (m.store.addFrame frame).2)
    (hidentity : m'.nextIdentity = m.nextIdentity)
    (hstack : ∀ i ∈ m'.stack, i = m.store.frames.size ∨ C.Owns m (.frame i)) :
    C.Confined m' := by
  have hsize : m'.store.frames.size = m.store.frames.size + 1 := by
    rw [hstore, Store.size_addFrame]
  have hcells : m'.store.cells = m.store.cells := by rw [hstore]; rfl
  have hle : m.Precedes m' := ⟨by omega, Nat.le_of_eq (by rw [hcells]), by omega⟩
  have hcell : ∀ c, m'.store.cell c = m.store.cell c := fun c => by
    simp [Store.cell, hcells]
  refine ⟨hm.precedes.trans hle, ?_, ?_, ?_, ?_⟩
  · intro i hi
    rcases hstack i hi with heq | howns
    · have hold := hm.precedes.frames_le
      exact owns_frame_iff.mpr (.inr ⟨by omega, by omega⟩)
    · exact howns.mono hle
  · intro i name c hi hfound
    -- A closure may name frames that nobody has given out, so the new frame need
    -- not count as created.
    rw [hstore] at hfound
    by_cases hlt : i < m.store.frames.size
    · rw [Store.frame_addFrame_of_lt frame hlt] at hfound
      exact (hm.names i name c (hi.frame_of_lt fun _ => hlt) hfound).mono hle
    · by_cases heq : i = m.store.frames.size
      · rw [heq, Store.frame_addFrame_self] at hfound
        exact (hframe name c hfound).mono hle
      · rw [Store.find?_eq_none_of_le (by rw [Store.size_addFrame]; omega)]
          at hfound
        cases hfound
  · intro c hc
    have hc' : C.Owns m (.cell c) := hc.cell_of_lt (by rw [hcells]; exact id)
    rw [hcell]
    exact (hm.values c hc').mono hle
  · intro c hc hreached
    rw [hcell]
    exact hm.others c hc hreached

/-- A new variable may hold only what belongs to the call. -/
theorem Confined.bindNew (hm : C.Confined m) {v : Value} (hv : C.Knows m v)
    (top : Nat) (name : String) (const : Bool) : 
    C.Confined { m with store := m.store.bindNew top name v const } := by
  have hsize := Store.size_bindNew m.store top name v const
  have hcells := Store.size_cells_bindNew m.store top name v const
  have hle : m.Precedes { m with store := m.store.bindNew top name v const } :=
    ⟨Nat.le_of_eq hsize.symm, by rw [hcells]; exact Nat.le_succ _, Nat.le_refl _⟩
  have hnew : C.Owns { m with store := m.store.bindNew top name v const }
      (.cell m.store.cells.size) :=
    owns_cell_iff.mpr (.inr
      ⟨hm.precedes.cells_le, by rw [hcells]; exact Nat.lt_succ_self _⟩)
  refine ⟨hm.precedes.trans hle, fun i hi => (hm.visible i hi).mono hle, ?_, ?_, ?_⟩
  · intro i other c hi hfound
    have hi' : C.Owns m (.frame i) := hi.frame_of_lt fun hlt => hsize ▸ hlt
    rcases Store.find?_bindNew hfound with rfl | hfound
    · exact hnew
    · exact (hm.names i other c hi' hfound).mono hle
  · intro c hc
    rw [Store.cell_bindNew]
    by_cases heq : c = m.store.cells.size
    · rw [if_pos heq]
      exact hv.mono hle
    · rw [if_neg heq]
      have hc' : C.Owns m (.cell c) := by
        apply hc.cell_of_lt
        intro hlt
        rw [hcells] at hlt
        omega
      exact (hm.values c hc').mono hle
  · intro c hc hreached
    have hold := hm.precedes.cells_le
    rw [Store.cell_bindNew, if_neg (by omega)]
    exact hm.others c hc hreached

/-- A variable that belongs to the call may be given a value that does. -/
theorem Confined.assigned (hm : C.Confined m) {v : Value} (hv : C.Knows m v)
    {index : Nat} (hindex : C.Owns m (.cell index)) :
    C.Confined { m with store := { m.store with
      cells := m.store.cells.modify index fun x => { x with value := v } } } := by
  have hle : m.Precedes { m with store := { m.store with
      cells := m.store.cells.modify index fun x => { x with value := v } } } :=
    ⟨Nat.le_refl _, Nat.le_of_eq (by simp), Nat.le_refl _⟩
  refine ⟨hm.precedes.trans hle, fun i hi => (hm.visible i hi).mono hle, ?_, ?_, ?_⟩
  · intro i name c hi hfound
    exact (hm.names i name c (hi.frame_of_lt id) hfound).mono hle
  · intro c hc
    have hc' : C.Owns m (.cell c) := hc.cell_of_lt (by simp)
    rw [Store.cell_assigned]
    by_cases heq : c = index ∧ c < m.store.cells.size
    · rw [if_pos heq]
      exact hv.mono hle
    · rw [if_neg heq]
      exact (hm.values c hc').mono hle
  · intro c hc hreached
    rw [Store.cell_assigned, if_neg]
    · exact hm.others c hc hreached
    · rintro ⟨rfl, _⟩
      rcases owns_cell_iff.mp hindex with hreached' | hcreated
      · exact hreached hreached'
      · exact Nat.not_lt.mpr hcreated.1 hc

/-- An assignment of a known value keeps a machine confined. -/
theorem Confined.assign (hm : C.Confined m) {v : Value} (hv : C.Knows m v)
    (name : String) :
    C.Confined (m.updated (Store.assign name v)) := by
  rcases Store.assign_cases name v m.stack m.store with ⟨fault, hassign⟩ | ⟨index,
    hresolve, hassign⟩
  · rw [Machine.updated_of_eq hassign]
    exact hm
  · rw [Machine.updated_of_eq hassign]
    exact hm.assigned hv (hm.resolve? hresolve)

/-- A declaration of a known value keeps a machine confined. -/
theorem Confined.declare (hm : C.Confined m) {v : Value} (hv : C.Knows m v)
    (name : String) (const : Bool) :
    C.Confined (m.updated (Store.declare name v const)) :=
  Machine.updated_declare (P := C.Confined) hm fun top _ _ _ =>
    hm.bindNew hv top name const

/-- A parameter with a known value keeps a machine confined. -/
theorem Confined.override (hm : C.Confined m) {v : Value} (hv : C.Knows m v)
    (name : String) (const : Bool) :
    C.Confined (m.updated (Store.override name v const)) :=
  Machine.updated_override (P := C.Confined) hm fun top _ _ =>
    hm.bindNew hv top name const

/-- The copy of a frame shares its variables, and so it leads no further than the
frame does. -/
theorem Confined.settled (hm : C.Confined m) :
    C.Confined m.settled ∧ m.Precedes m.settled := by
  have hextended := Machine.extended_settled m
  unfold Machine.settled at hextended ⊢
  rcases m.settle_cases with ⟨_, hsettle⟩ | ⟨top, outer, hstack, hsettle⟩
  · rw [hsettle]
    exact ⟨hm, .refl m⟩
  · rw [hsettle] at hextended ⊢
    have htop : C.Owns m (.frame top) :=
      hm.visible top (hstack ▸ List.mem_cons_self)
    refine ⟨hm.addFrame (fun name c hfound => hm.names top name c htop hfound) rfl
      rfl ?_,
      hextended.precedes rfl⟩
    intro i hi
    rcases List.mem_cons.mp hi with heq | hi
    · exact .inl heq
    · exact .inr (hm.visible i (hstack ▸ List.mem_cons_of_mem _ hi))

/-- An empty frame may be pushed on any frames that belong to the call. -/
theorem Confined.push (hm : C.Confined m) (kind : FrameKind) {stack : Stack}
    (hstack : ∀ i ∈ stack, C.Owns m (.frame i))
    (hstack' : m'.stack = (m.store.push kind stack).1)
    (hstore : m'.store = (m.store.push kind stack).2)
    (hidentity : m'.nextIdentity = m.nextIdentity) :
    C.Confined m' := by
  have hempty : ∀ name c, (Frame.mk kind []).find? name = some c →
      C.Owns m (.cell c) := by
    intro name c hfound
    cases hfound
  apply hm.addFrame hempty hstore hidentity
  intro i hi
  rw [hstack'] at hi
  rcases List.mem_cons.mp hi with heq | hi
  · exact .inl heq
  · exact .inr (hstack i hi)

/-- A closure over the visible frames belongs to the call. -/
theorem Confined.close (hm : C.Confined m) (d : FunctionDef) :
    C.Confined { m with nextIdentity := m.nextIdentity + 1 } ∧
      C.Knows { m with nextIdentity := m.nextIdentity + 1 }
          (.closure ⟨m.nextIdentity, d, m.stack⟩) := by
  constructor
  · exact hm.restacked rfl (Nat.le_succ _) hm.visible
  · intro t ht
    cases ht
    refine .inr ⟨⟨hm.precedes.identity_le, Nat.lt_succ_self _⟩, ?_⟩
    rintro f hf i hi
    cases hf
    exact owns_frame_iff.mp (hm.visible i hi)

/-- A function of the host hands on only what belongs to the call. -/
theorem Confined.answer {g : Setting} (hhost : g.Contained C.carries)
    (hm : C.Confined m) {f : Native} {action : HostProcedure}
    {arguments : List Value} (hf : C.Knows m (.native f))
    (haction : g.host[f.entry]? = some action)
    (harguments : ∀ a ∈ arguments, C.Knows m a) {v : Value}
    (hv : (action arguments m.console).1 = .value v) : C.Knows m v := by
  intro t ht
  apply hm.reaches _ (hhost f action haction arguments m.console v hv t ht m.store)
  rintro root (rfl | ⟨a, ha, hroot⟩)
  · exact hf _ rfl
  · exact harguments a ha root hroot

/-! ## Calls -/

/-- Nothing that is evaluated leads out of what belongs to the call. -/
def privacy {g : Setting} (C : Confinement) (hhost : g.Contained C.carries)
    (hspaces : ∀ space ∈ g.namespaces, C.roots (.space space)) : Discipline g where
  keeps := Machine.Precedes
  stays := Machine.Precedes
  sound := C.Confined
  knows := C.Knows
  mayBreak _ := True
  mayReturn _ := True
  keeps_refl := Machine.Precedes.refl
  keeps_trans := Machine.Precedes.trans
  stays_of_keeps h := h
  stays_trans := Machine.Precedes.trans
  knows_stays h hv := hv.mono h
  mayBreak_stays _ _ := trivial
  mayReturn_stays _ _ := trivial
  knows_plain _ v h t ht := by
    rw [Value.thing?_of_isPlain h] at ht
    cases ht
  knows_member h hmember t ht :=
    .inl ((h _ rfl).space.tail (.member (Namespace.mem_of_member? hmember) ht))
  knows_space _ hspace t ht := by
    cases ht
    exact .inl (.root (hspaces _ hspace))
  knows_cell hm h := hm.values _ (hm.resolve? h)
  assign hm hv :=
    ⟨hm.assign hv _, (Machine.kept_assign _ _ _).extended.precedes rfl⟩
  close d hm :=
    ⟨(hm.close d).1, ⟨Nat.le_refl _, Nat.le_refl _, Nat.le_succ _⟩, (hm.close d).2⟩
  host hm hf haction harguments := ⟨hm.restacked rfl (Nat.le_refl _) hm.visible,
    ⟨Nat.le_refl _, Nat.le_refl _, Nat.le_refl _⟩,
      fun _ hv => hm.answer hhost hf haction harguments hv⟩
  declare hm hv :=
    ⟨hm.declare hv _ _, (Machine.extended_declare _ _ _ _).precedes rfl⟩
  override hm hv :=
    ⟨hm.override hv _ _, (Machine.extended_override _ _ _ _).precedes rfl⟩
  settle hm := hm.settled
  enter kind hm := hm.push kind hm.visible rfl rfl rfl
  knows_enter kind hv := hv.mono (Machine.precedes_enter kind _)
  leave {m m' kind} hm hm' h :=
    have hle : m.Precedes m' := (Machine.precedes_enter kind m).trans h
    ⟨hm'.restacked rfl (Nat.le_refl _) fun i hi => hm'.visible i
      (List.mem_of_mem_drop hi),
      hle.frames_le, hle.cells_le, hle.identity_le⟩
  knows_leave _ hv := hv
  enterCall hm hf _ :=
    hm.push .function (fun _ hi => (hf _ rfl).captured hi) rfl rfl rfl
  knows_enterCall captured hv := hv.mono (Machine.precedes_enterCall captured _)
  leaveCall {m m' f} hm hm' _ h :=
    have hle : m.Precedes m' := (Machine.precedes_enterCall f.captured m).trans h
    ⟨hm'.restacked rfl (Nat.le_refl _) fun i hi => (hm.visible i hi).mono hle,
      hle.frames_le, hle.cells_le, hle.identity_le⟩
  knows_leaveCall _ hv := hv
  checkBreak _ _ := trivial
  checkReturn _ _ := trivial
  mayBreak_enter _ := trivial
  mayReturn_enter _ _ := trivial

end Confinement

/-- What a call of a closure can start from: the frames that the closure was formed
in, the arguments, and the namespaces that can be pulled. -/
def Closure.roots (g : Setting) (f : Closure) (arguments : List Value)
    (t : Thing) : Prop :=
  (∃ i ∈ f.captured, t = .frame i) ∨ (∃ a ∈ arguments, a.thing? = some t) ∨
    ∃ space ∈ g.namespaces, t = .space space

namespace Confinement

/-- The confinement of a call that starts on a given machine. -/
def ofCall (g : Setting) (carries : Native → List Value) (f : Closure)
    (arguments : List Value) (m : Machine) : Confinement :=
  ⟨carries, m, f.roots g arguments⟩

/-- As long as nothing has been given out, only what can be reached belongs to a
call. -/
theorem Owns.reached {C : Confinement} {m : Machine} {t : Thing} (h : C.Owns m t)
    (hle : m.Precedes C.start) :
    C.Reached t := by
  obtain ⟨hframes, hcells, hidentity⟩ := hle
  rcases h with hreached | ⟨hcreated, _⟩
  · exact hreached
  · cases t with
    | frame i =>
        exact absurd hcreated.2 (Nat.not_lt.mpr (Nat.le_trans hframes hcreated.1))
    | cell c =>
        exact absurd hcreated.2 (Nat.not_lt.mpr (Nat.le_trans hcells hcreated.1))
    | closure f =>
        exact absurd hcreated.2 (Nat.not_lt.mpr (Nat.le_trans hidentity hcreated.1))
    | native f | space space => cases hcreated

variable {g : Setting} {carries : Native → List Value} {f : Closure}
  {arguments : List Value} {m : Machine}

/-- With the frames of the caller out of sight, all that is in sight before the call
belongs to it. -/
theorem ofCall_confined :
    (ofCall g carries f arguments m).Confined { m with stack := [] } := by
  have hle : Machine.Precedes { m with stack := [] } m :=
    ⟨Nat.le_refl _, Nat.le_refl _, Nat.le_refl _⟩
  refine ⟨⟨Nat.le_refl _, Nat.le_refl _, Nat.le_refl _⟩, ?_, ?_, ?_,
    fun _ _ _ => rfl⟩
  · intro i hi
    cases hi
  · intro i name c hi hfound
    exact .inl ((hi.reached hle).tail (.name hfound))
  · intro c hc t ht
    exact .inl ((hc.reached hle).tail (.value ht))

/-- The body of a closure stays within what belongs to the call. -/
theorem ofCall_body (hhost : g.Contained carries) (fuel : Nat) (f : Closure)
    (arguments : List Value) (m : Machine) :
    let C := ofCall g carries f arguments m
    let result := (do
      Eval.bindParameters f.definition.parameters arguments
      evaluate g fuel f.definition.body : Eval Value) (m.enterCall f.captured)
    C.Confined result.2 ∧
      (∀ v, result.1 = .value v → C.Knows result.2 v) ∧ ∀ v,
        result.1 = .returning v → C.Knows result.2 v := by
  intro C result
  have hinside : C.Confined (m.enterCall f.captured) := by
    have hcaptured : ∀ i ∈ f.captured, C.Owns { m with stack := [] } (.frame i) :=
      fun i hi => .inl (.root (.inl ⟨i, hi, rfl⟩))
    exact Confined.push ofCall_confined .function hcaptured rfl rfl rfl
  have harguments : ∀ a ∈ arguments, C.Knows m a :=
    fun a ha t ht => .inl (.root (.inr (.inl ⟨a, ha, ht⟩)))
  have hspaces : ∀ space ∈ g.namespaces, C.roots (.space space) :=
    fun space hspace => .inr (.inr ⟨space, hspace, rfl⟩)
  have hbody :=
    Discipline.body_at ((C.privacy hhost hspaces).evaluate_disciplined fuel)
      hinside harguments
  exact ⟨hbody.sound, fun v hv => hbody.of_value hv,
    fun v hv => (hbody.of_returning hv).2⟩

end Confinement

/-- To absorb a signal is not to touch the machine. -/
theorem Eval.absorbing_machine (p : Eval Value) (m : Machine) :
    (absorbing p m).2 = (p m).2 := by
  unfold absorbing
  split <;> simp [*]

/-- The body of a function ends with a value, or with a signal that is taken for
one. -/
theorem Eval.absorbing_eq_value {p : Eval Value} {m : Machine} {v : Value}
    (h : (absorbing p m).1 = .value v) :
    (p m).1 = .value v ∨ (p m).1 = .returning v ∨ v = .null := by
  unfold absorbing at h
  split at h <;> simp_all

/-- A call comes out at a machine that is confined, but for the stack, which is the
caller's. -/
theorem Confinement.ofCall_callClosure {g : Setting} {carries : Native → List Value}
    (hhost : g.Contained carries) (fuel : Nat) (f : Closure)
    (arguments : List Value) (m : Machine) :
    let C := ofCall g carries f arguments m
    let result := Eval.callClosure (evaluate g fuel) g f arguments m
    ∃ m', C.Confined m' ∧ result.2.store = m'.store ∧
      result.2.nextIdentity = m'.nextIdentity ∧
      ∀ v, result.1 = .value v → C.Knows m' v := by
  intro C result
  rcases Eval.callClosure_cases (evaluate g fuel) g f arguments
    m with ⟨fault, hcall⟩ | ⟨_, hcall⟩
  · have hresult : result = (.failed fault, m) := hcall
    rw [hresult]
    exact ⟨_, ofCall_confined, rfl, rfl, fun v hv => by cases hv⟩
  · obtain ⟨hconfined, hvalue, hreturning⟩ := ofCall_body hhost fuel f arguments m
    have hresult := hcall.trans (Eval.inCall_eq f.captured _ m)
    rw [Eval.absorbing_machine] at hresult
    refine ⟨_, hconfined, ?_, ?_, ?_⟩
    · simp only [result, hresult]
      rfl
    · simp only [result, hresult]
      rfl
    · intro v hv
      simp only [result, hresult] at hv
      rcases Eval.absorbing_eq_value hv with hv | hv | rfl
      · exact hvalue v hv
      · exact hreturning v hv
      · intro t ht
        cases ht

/-- The state of a closure is private.  However a call ends, the variables that were
there before and that cannot be reached from the frames of the closure, from the
arguments or from the namespaces are as they were.  All that can be reached from the
value of the call could be reached from there before, or was created by the call. -/
theorem closure_state_private (g : Setting) (carries : Native → List Value)
    (hhost : g.Contained carries) (fuel : Nat) (f : Closure)
    (arguments : List Value) (m : Machine) :
    let result := Eval.callClosure (evaluate g fuel) g f arguments m
    let Reached := Reaches carries m.store (f.roots g arguments)
    (∀ c < m.store.cells.size, ¬ Reached (.cell c) →
      result.2.store.cell c = m.store.cell c) ∧
      ∀ v, result.1 = .value v → ∀ t,
        Reaches carries result.2.store (v.thing? = some ·) t →
        Reached t ∨ t.CreatedBetween m result.2 := by
  intro result Reached
  obtain ⟨m', hconfined, hstore, hidentity, hknows⟩ :=
    Confinement.ofCall_callClosure hhost fuel f arguments m
  have hle : m'.Precedes result.2 :=
    ⟨Nat.le_of_eq (by rw [hstore]), Nat.le_of_eq (by rw [hstore]),
      Nat.le_of_eq hidentity.symm⟩
  constructor
  · intro c hc hreached
    rw [hstore]
    exact hconfined.others c hc hreached
  · intro v hv t ht
    rw [hstore] at ht
    have howns := hconfined.reaches (fun root hroot => hknows v hv root hroot) ht
    exact howns.imp_right fun hcreated => hcreated.1.mono hle

/-! ## A counter and a variable beside it -/

/-- A function of the host that hands back its argument. -/
def echo : Native := ⟨0, "echo", some 1⟩

/-- The setting that has this function. -/
def echoSetting : Setting :=
  ⟨8, #[(Host.pure fun arguments => Host.argument 0 arguments .value).procedure],
    []⟩

/-- A function that gives its argument back hands out nothing else. -/
theorem echoSetting_contained : echoSetting.Contained fun _ => [] := by
  intro f action haction arguments console v hv t ht s
  have hmem : action ∈ echoSetting.host := Array.mem_of_getElem? haction
  have haction : action = (Host.pure fun arguments => Host.argument 0 arguments
      .value).procedure := by
    simpa [echoSetting] using hmem
  rw [haction] at hv
  have hanswer : Host.argument 0 arguments .value = .value v := hv
  unfold Host.argument at hanswer
  split at hanswer
  · rename_i a ha
    cases hanswer
    exact .root (.inr ⟨v, List.mem_of_getElem? ha, ht⟩)
  · cases hanswer

/-- Two frames that have nothing to do with each other.  The first one binds `n` and
`echo`, and the second one, which is visible, binds `hidden`. -/
def besideCounting : Machine where
  store := ⟨#[⟨.int 1, false⟩, ⟨.native echo, true⟩, ⟨.int 7, false⟩],
    #[⟨.block, [("n", 0), ("echo", 1)]⟩, ⟨.block, [("hidden", 2)]⟩], [1, 0]⟩
  stack := [1]
  callDepth := 0
  nextIdentity := 1
  console := {}

/-- The closure `functi() { n += 1; echo(functi() n) }` over the first of the two
frames. -/
def countingClosure : Closure where
  identity := 0
  definition :=
    let n : Expr := ⟨.name "n", default⟩
    let count : Expr :=
      ⟨.binary .addAssign n ⟨.literal (.integer 1), default⟩, default⟩
    let reading : Expr :=
      ⟨.call ⟨.name "echo", default⟩ [⟨.function ⟨[], n⟩, default⟩], default⟩
    ⟨[], ⟨.block [⟨.evaluate count, true, default⟩,
      ⟨.evaluate reading, false, default⟩], default⟩⟩
  captured := [0]

/-- The cell beside the counter is not reached from it. -/
theorem hidden_not_reached :
    ¬ Reaches (fun _ => []) besideCounting.store
      (countingClosure.roots echoSetting []) (.cell 2) := by
  intro hreached
  have hinside := hreached.inside
    (P := fun t => t = .frame 0 ∨ t = .cell 0 ∨ t = .cell 1 ∨ t = .native echo) ?_
      ?_
  · simp at hinside
  · rintro root (⟨i, hi, rfl⟩ | ⟨a, ha, _⟩ | ⟨space, hspace, _⟩)
    · rw [List.mem_singleton.mp hi]
      exact .inl rfl
    · cases ha
    · cases hspace
  · intro t u ht hleads
    cases hleads with
    | @name i c name hfound =>
        have hi : i = 0 := by simpa using ht
        rw [hi] at hfound
        have hnames : [("n", 0), ("echo", 1)].lookup name = some c := hfound
        have hmem : c = 0 ∨ c = 1 := by
          simp only [List.lookup_cons, List.lookup_nil] at hnames
          split at hnames
          · exact .inl (Option.some.inj hnames).symm
          · split at hnames
            · exact .inr (Option.some.inj hnames).symm
            · cases hnames
        rcases hmem with rfl | rfl <;> simp
    | @value c u hvalue =>
        have hc : c = 0 ∨ c = 1 := by simpa using ht
        rcases hc with rfl | rfl
        · cases hvalue
        · exact .inr (.inr (.inr (Option.some.inj hvalue).symm))
    | captured hi => simp at ht
    | carried hv _ => cases hv
    | member _ _ => simp at ht

/-- A call of the counter changes `n` and hands back a new closure.  It leaves
`hidden` alone, and what it hands back does not lead there either. -/
theorem counter_state_private :
    let result :=
      Eval.callClosure (evaluate echoSetting 6) echoSetting countingClosure []
        besideCounting
    (result.2.store.cell 0).value = .int 2 ∧
      result.2.store.cell 2 = besideCounting.store.cell 2 ∧
      ∃ f, result.1 = .value (.closure f) ∧
        ¬ Reaches (fun _ => []) result.2.store (Value.thing? (.closure f) = some ·)
            (.cell 2) := by
  intro result
  obtain ⟨hothers, hvalue⟩ :=
    closure_state_private echoSetting (fun _ => []) echoSetting_contained 6
      countingClosure [] besideCounting
  refine ⟨rfl, hothers 2 (by decide) hidden_not_reached, _, rfl, ?_⟩
  intro hleads
  rcases hvalue _ rfl _ hleads with hreached | hcreated
  · exact hidden_not_reached hreached
  · exact absurd hcreated.1 (by decide)

end ScriptLang
