import ScriptLang.Proofs.Eval.Runs

/-!
# What closures see of later declarations

A closure shares the frames it was formed in with the scopes that are still running
in them.  `settle` replaces the innermost frame of the running scope after every
declaration, so a closure that was formed by a declaration keeps the frame of
before.  A closure that was formed any other way (by an assignment, as an argument,
inside a block) still shares the innermost frame when the next declaration starts,
and that declaration adds its names to the shared frame before it settles.

The main theorem is the exact account: what a name means to a closure changes if and
only if the closure sees into the innermost frame of the running scope and the
statement declares the name there.
-/

namespace ScriptLang

/-- The names that a statement declares. -/
def Action.declaredNames : Action → List String
  | .pull path => path.getLast?.toList
  | .declare bindings => bindings.map Binding.name
  | _ => []

/-- Between two machines, the names of a list, all new, were added to one frame with
new variables, and nothing else happened to the frames that were there. -/
structure Machine.Declared (top : Nat) (names : List String)
    (m m' : Machine) : Prop where
  size_le : m.store.frames.size ≤ m'.store.frames.size
  cells_le : m.store.cells.size ≤ m'.store.cells.size
  frame_eq : ∀ i, i < m.store.frames.size → i ≠ top →
    m'.store.frame i = m.store.frame i
  unbound : ∀ n ∈ names, (m.store.frame top).find? n = none
  bound : ∀ n ∈ names, ∃ cell, (m'.store.frame top).find? n = some cell ∧
    m.store.cells.size ≤ cell
  others : ∀ n, n ∉ names →
    (m'.store.frame top).find? n = (m.store.frame top).find? n

namespace Machine

variable {m m' : Machine} {top : Nat} {outer : Stack}

/-- A store that only grows has declared nothing. -/
theorem Declared.of_grows (top : Nat) (htop : top < m.store.frames.size)
    (h : m.store.Grows m'.store) : Declared top [] m m' where
  size_le := h.size_le
  cells_le := h.cells_le
  frame_eq i hi _ := h.frame_eq i hi
  unbound n hn := absurd hn List.not_mem_nil
  bound n hn := absurd hn List.not_mem_nil
  others n _ := by rw [h.frame_eq top htop]

/-- Names that are added one after the other are different. -/
theorem Declared.append {m'' : Machine} {names names' : List String}
    (h : Declared top names m m') (h' : Declared top names' m' m'') :
    Declared top (names ++ names') m m'' where
  size_le := Nat.le_trans h.size_le h'.size_le
  cells_le := Nat.le_trans h.cells_le h'.cells_le
  frame_eq i hi htop := by
    rw [h'.frame_eq i (Nat.lt_of_lt_of_le hi h.size_le) htop, h.frame_eq i hi htop]
  unbound n hn := by
    by_cases hmem : n ∈ names
    · exact h.unbound n hmem
    · have hmem' := (List.mem_append.mp hn).resolve_left hmem
      rw [← h.others n hmem]
      exact h'.unbound n hmem'
  bound n hn := by
    by_cases hmem : n ∈ names'
    · obtain ⟨cell, hfound, hcell⟩ := h'.bound n hmem
      exact ⟨cell, hfound, Nat.le_trans h.cells_le hcell⟩
    · rw [h'.others n hmem]
      exact h.bound n ((List.mem_append.mp hn).resolve_right hmem)
  others n hn := by
    rw [List.mem_append, not_or] at hn
    rw [h'.others n hn.2, h.others n hn.1]

/-- Binding a new name declares it. -/
theorem Declared.bindNew (htop : top < m.store.frames.size) {name : String}
    (v : Value) (const : Bool) (hname : (m.store.frame top).find? name = none) :
    Declared top [name] m { m with store := m.store.bindNew top name v const } where
  size_le := by simp
  cells_le := by simp [Store.bindNew]
  frame_eq i _ hi := Store.frame_bindNew_of_ne m.store name v const hi
  unbound n hn := by rw [List.mem_singleton.mp hn, hname]
  bound n hn := by
    rw [List.mem_singleton.mp hn,
      Store.frame_bindNew_self m.store name v const htop]
    exact ⟨_, Frame.find?_bind_self _ _ _, Nat.le_refl _⟩
  others n hn := by
    rw [Store.frame_bindNew_self m.store name v const htop]
    exact Frame.find?_bind_of_ne _ _ (by simpa using hn)

end Machine

/-! ## Declarations -/

namespace Eval

/-- A sequence goes on from the value of its first part, or ends where that part
ended. -/
theorem bind_cases (p : Eval α) (next : α → Eval β) (m : Machine) :
    (∃ a m', p m = (.value a, m') ∧ (p >>= next) m = next a m') ∨
      ((p >>= next) m).2 = (p m).2 ∧ ∀ b, ((p >>= next) m).1 ≠ .value b := by
  show (∃ a m', p m = (.value a, m') ∧ andThen p next m = next a m') ∨
    (andThen p next m).2 = (p m).2 ∧ ∀ b, (andThen p next m).1 ≠ .value b
  unfold andThen
  rcases p m with ⟨outcome, m'⟩
  cases outcome with
  | value a => exact .inl ⟨a, m', rfl, rfl⟩
  | breaking | returning v | failed fault | crashed words | exhausted =>
      exact .inr ⟨rfl, fun b hb => by cases hb⟩

/-- Some of the names of a list have been declared in a frame: the first few of
them, and all of them when the computation ended with a value. -/
def Declares (top : Nat) (names : List String) (m : Machine)
    (result : Outcome α × Machine) : Prop :=
  ∃ declared, declared <+: names ∧ (∀ a, result.1 = .value a → declared = names) ∧
    Machine.Declared top declared m result.2

variable {m : Machine} {top : Nat} {outer : Stack}

/-- A declaration followed by more of them. -/
theorem Declares.bind {p : Eval α} {next : α → Eval β} {names names' : List String}
    (hp : Declares top names m (p m))
    (hnext : ∀ a m', p m = (.value a, m') → Declares top names' m' (next a m')) :
    Declares top (names ++ names') m ((p >>= next) m) := by
  obtain ⟨declared, hprefix, hvalue, hdeclared⟩ := hp
  rcases bind_cases p next m with ⟨a, m', hrun, hbind⟩ | ⟨hstore, hstops⟩
  · obtain ⟨declared', hprefix', hvalue', hdeclared'⟩ := hnext a m' hrun
    obtain rfl := hvalue a (by rw [hrun])
    rw [hrun] at hdeclared
    rw [hbind]
    refine ⟨declared ++ declared',
      (List.prefix_append_right_inj declared).mpr hprefix', ?_, ?_⟩
    · intro b hb
      rw [hvalue' b hb]
    · exact hdeclared.append hdeclared'
  · refine ⟨declared, hprefix.trans (List.prefix_append _ _), ?_, ?_⟩
    · exact fun b hb => absurd hb (hstops b)
    · rw [hstore]
      exact hdeclared

/-- A computation that adds no names to the frames that were there. -/
theorem Declares.none {result : Outcome α × Machine}
    (htop : top < m.store.frames.size) (h : m.store.Grows result.2.store) :
    Declares top [] m result :=
  ⟨[], List.prefix_rfl, fun _ _ => rfl, Machine.Declared.of_grows top htop h⟩

/-- A declaration declares its name in the innermost frame, or fails. -/
theorem Declares.declare (hstack : m.stack = top :: outer)
    (htop : top < m.store.frames.size) (name : String) (v : Value) (const : Bool) :
    Declares top [name] m (declare name v const m) := by
  unfold Eval.declare update
  dsimp only
  rcases Store.declare_cases name v const m.stack m.store with
    ⟨fault, hdeclare⟩ | ⟨top', outer', hstack', hname, hdeclare⟩
  · rw [hdeclare]
    refine ⟨[], List.nil_prefix, ?_,
      Machine.Declared.of_grows top htop (Store.Grows.refl _)⟩
    exact fun a ha => by cases ha
  · obtain ⟨rfl, _⟩ := List.cons.inj (hstack.symm.trans hstack')
    rw [hdeclare]
    exact ⟨[name], List.prefix_rfl, fun _ _ => rfl,
      Machine.Declared.bindNew htop v const hname⟩

/-- Copying the innermost frame declares nothing in it. -/
theorem Declares.settle (htop : top < m.store.frames.size) :
    Declares top [] m (settle m) := by
  apply Declares.none htop
  rcases m.settle_cases with ⟨_, hsettle⟩ | ⟨top', outer', _, hsettle⟩
  · rw [hsettle]
    exact Store.Grows.refl _
  · rw [hsettle]
    exact Store.grows_addFrame _ _

/-- An operand that may be missing leaves the visible frames as they are. -/
theorem optional_kept (g : Setting) (fuel : Nat) (otherwise : Value)
    (e : Option Expr) (m : Machine) :
    m.Kept (optional (evaluate g fuel) otherwise e m).2 := by
  cases e with
  | none => exact Machine.Kept.refl m
  | some e => exact evaluate_kept g fuel e m

theorem lift_machine (result : Except Fault α) (m : Machine) :
    (lift result m).2 = m := by
  cases result <;> rfl

theorem declare_machine (name : String) (v : Value) (const : Bool) (m : Machine) :
    (declare name v const m).2 = m.updated (Store.declare name v const) :=
  lift_machine _ _

/-- A list of bindings declares its names in the innermost frame.  The first values
are evaluated between the declarations, but declare nothing there. -/
theorem declareAll_declares (g : Setting) (fuel : Nat) (bindings : List Binding)
    (hstack : m.stack = top :: outer) (htop : top < m.store.frames.size) :
    Declares top (bindings.map Binding.name) m
      (declareAll (evaluate g fuel) bindings m) := by
  induction bindings generalizing m with
  | nil => exact Declares.none htop (Store.Grows.refl _)
  | cons b rest ih =>
      have hkept := optional_kept g fuel .null b.value m
      rw [← List.nil_append (List.map _ _)]
      apply (Declares.none htop hkept.grows).bind
      intro value m₁ hrun
      rw [hrun] at hkept
      have hstack₁ : m₁.stack = top :: outer := hkept.stack_eq.trans hstack
      have htop₁ : top < m₁.store.frames.size :=
        Nat.lt_of_lt_of_le htop hkept.grows.size_le
      apply (Declares.declare hstack₁ htop₁ b.name value b.const).bind
      intro _ m₂ hrun₂
      have hdeclared := declare_machine b.name value b.const m₁
      rw [hrun₂] at hdeclared
      dsimp only at hdeclared
      subst hdeclared
      have hextended := m₁.extended_declare b.name value b.const
      exact ih hstack₁ (Nat.lt_of_lt_of_le htop₁ hextended.size_le)

/-- The name that a path of names brings in is the last one. -/
theorem follow_name {name : String} {value : Value} {path : List String}
    {result : String × Value} (h : follow name value path = .ok result) :
    (name :: path).getLast? = some result.1 := by
  induction path generalizing name value with
  | nil =>
      cases h
      rfl
  | cons next rest ih =>
      simp only [follow] at h
      split at h
      · rw [List.getLast?_cons_cons]
        exact ih h
      · cases h

/-- A path is bound by its last name. -/
theorem resolvePath_name {g : Setting} {path : List String}
    {result : String × Value} (h : resolvePath g path = .ok result) :
    path.getLast? = some result.1 := by
  cases path with
  | nil => cases h
  | cons first rest =>
      simp only [resolvePath] at h
      split at h
      · exact follow_name h
      · cases h

/-- What a declaration leaves is settled, which adds no names to the frames that
were there. -/
theorem Declares.settling {p : Eval Unit} {names : List String}
    (hp : Declares top names m (p m)) (htop : top < m.store.frames.size) :
    Declares top names m ((do
      p
      Eval.settle
      return .null : Eval Value) m) := by
  rw [← List.append_nil names]
  apply hp.bind
  intro _ m₁ hrun
  obtain ⟨_, _, _, hdeclared⟩ := hp
  rw [hrun] at hdeclared
  have htop₁ : top < m₁.store.frames.size :=
    Nat.lt_of_lt_of_le htop hdeclared.size_le
  rw [← List.nil_append []]
  apply (Declares.settle htop₁).bind
  intro _ m₂ hrun₂
  have hgrows := m₁.extended_settled.size_le
  have hm₂ : m₁.settled = m₂ := by rw [Machine.settled, hrun₂]
  rw [hm₂] at hgrows
  exact Declares.none (Nat.lt_of_lt_of_le htop₁ hgrows) (Store.Grows.refl _)

/-- Computations in sequence that leave the frames alone. -/
theorem grows_bind {p : Eval α} {next : α → Eval β}
    (hp : m.store.Grows (p m).2.store)
    (hnext : ∀ a (m' : Machine), m'.store.Grows (next a m').2.store) :
    m.store.Grows ((p >>= next) m).2.store := by
  rcases bind_cases p next m with ⟨a, m', hrun, hbind⟩ | ⟨hstore, _⟩
  · rw [hrun] at hp
    rw [hbind]
    exact hp.trans (hnext a m')
  · rw [hstore]
    exact hp

/-- A check leaves the store as it is. -/
theorem grows_check (condition : Stack → Store → Except Fault Unit) (m : Machine) :
    m.store.Grows (check condition m).2.store := by
  rw [check, lift_machine]
  exact Store.Grows.refl _

theorem grows_truth (v : Value) (m : Machine) :
    m.store.Grows (truth v m).2.store := by
  unfold truth
  cases v.bool? with
  | none => exact Store.Grows.refl _
  | some b => exact Store.Grows.refl _

/-- A `break` leaves the frames alone. -/
theorem grows_break (m : Machine) :
    m.store.Grows ((do
      check Store.checkBreak
      stop .breaking : Eval Value) m).2.store :=
  grows_bind (grows_check _ m) fun _ _ => Store.Grows.refl _

/-- A statement declares the names that stand in it, in the innermost frame and
nowhere else. -/
theorem perform_declares (g : Setting) (fuel : Nat) (a : Action)
    (hstack : m.stack = top :: outer) (htop : top < m.store.frames.size) :
    Declares top a.declaredNames m (perform (evaluate g fuel) g a m) := by
  cases a with
  | pull path =>
      rw [← List.nil_append (Action.declaredNames _)]
      refine (Declares.none htop ?_).bind ?_
      · rw [lift_machine]
        exact Store.Grows.refl _
      · rintro ⟨name, value⟩ m₁ hrun
        obtain ⟨hpath, rfl⟩ : resolvePath g path = .ok (name, value) ∧ m₁ = m := by
          cases hresult : resolvePath g path with
          | ok result =>
              rw [hresult] at hrun
              cases hrun
              exact ⟨rfl, rfl⟩
          | error fault =>
              rw [hresult] at hrun
              cases hrun
        have hname : Action.declaredNames (.pull path) = [name] := by
          rw [Action.declaredNames, resolvePath_name hpath]
          rfl
        rw [hname]
        exact (Declares.declare hstack htop name value false).settling htop
  | declare bindings =>
      exact (declareAll_declares g fuel bindings hstack htop).settling htop
  | break_ => exact Declares.none htop (grows_break m)
  | breakIf condition =>
      refine Declares.none htop (grows_bind
        (evaluate_kept g fuel condition m).grows ?_)
      intro v m₁
      apply grows_bind (grows_truth v m₁)
      intro b m₂
      cases b with
      | true => exact grows_break m₂
      | false => exact Store.Grows.refl _
  | return_ value =>
      refine Declares.none htop (grows_bind (grows_check _ m) ?_)
      intro _ m₁
      apply grows_bind (optional_kept g fuel .null value m₁).grows
      exact fun _ m₂ => Store.Grows.refl _
  | evaluate e => exact Declares.none htop (evaluate_kept g fuel e m).grows

end Eval

/-! ## What closures see -/

/-- Whether looking up a name through the frames of a closure gets as far as the
innermost frame of the running scope: the closure has that frame, and no frame
further inside binds the name. -/
def Machine.SeenThrough (m : Machine) (captured : Stack) (n : String) : Prop :=
  ∃ top outer inner rest, m.stack = top :: outer ∧ captured = inner ++ top :: rest ∧
    m.store.resolve? n inner = none

namespace Machine.Declared

variable {m m' : Machine} {top : Nat} {names : List String}

/-- A name that was not added means what it meant, and so does every name outside
the frame. -/
theorem resolve?_eq (h : Declared top names m m') {n : String} {stack : Stack}
    (hstack : m.store.Given stack) (hn : n ∉ names ∨ top ∉ stack) :
    m'.store.resolve? n stack = m.store.resolve? n stack := by
  refine Store.resolve?_congr n ?_
  intro i hi
  by_cases htop : i = top
  · subst htop
    rcases hn with hn | hn
    · exact h.others n hn
    · exact absurd hi hn
  · rw [h.frame_eq i (hstack i hi) htop]

/-- A new name in the frame hides what lies behind it. -/
theorem resolve?_of_mem (h : Declared top names m m') {n : String} (hn : n ∈ names)
    {inner : Stack} (rest : Stack) (hnone : m'.store.resolve? n inner = none) :
    ∃ cell, m'.store.resolve? n (inner ++ top :: rest) = some cell ∧
      m.store.cells.size ≤ cell := by
  obtain ⟨cell, hfound, hcell⟩ := h.bound n hn
  refine ⟨cell, ?_, hcell⟩
  rw [Store.resolve?_append_of_none _ hnone, Store.resolve?, hfound]

/-- What a name means to a closure changes if the closure looks as far as the frame
and the name is added there. -/
theorem resolve?_ne (h : Declared top names m m') (hbound : m.store.Bound)
    {n : String} (hn : n ∈ names) {inner rest : Stack}
    (hgiven : m.store.Given inner) (hinner : top ∉ inner)
    (hnone : m.store.resolve? n inner = none) :
    m'.store.resolve? n (inner ++ top :: rest) ≠
      m.store.resolve? n (inner ++ top :: rest) := by
  have hnone' : m'.store.resolve? n inner = none := by
    rw [h.resolve?_eq hgiven (.inr hinner)]
    exact hnone
  obtain ⟨cell, hresolve, hcell⟩ := h.resolve?_of_mem hn rest hnone'
  intro heq
  rw [hresolve] at heq
  have hlt := hbound.resolve? heq.symm
  omega

end Machine.Declared

/-- A closure that sees through to a frame sees through to the first place where the
frame stands. -/
theorem Machine.SeenThrough.first {m : Machine} {captured : Stack} {n : String}
    (h : m.SeenThrough captured n) :
    ∃ top outer inner rest, m.stack = top :: outer ∧
      captured = inner ++ top :: rest ∧
      top ∉ inner ∧ m.store.resolve? n inner = none := by
  obtain ⟨top, outer, inner, rest, hstack, rfl, hnone⟩ := h
  by_cases hmem : top ∈ inner
  · obtain ⟨first, between, rfl, hfirst⟩ := List.eq_append_cons_of_mem hmem
    refine ⟨top, outer, first, between ++ top :: rest, hstack, by simp, hfirst, ?_⟩
    cases hresolve : m.store.resolve? n first with
    | none => rfl
    | some cell =>
        rw [Store.resolve?_append_of_some _ hresolve] at hnone
        cases hnone
  · exact ⟨top, outer, inner, rest, hstack, rfl, hmem, hnone⟩

/-- What a name means to a closure that was there before changes exactly when the
closure sees through to the innermost frame of the running scope and the statement
declares the name there.  A statement that ends with a value has declared all of its
names, and one that ends otherwise the first few of them. -/
theorem resolve?_execute_ne_iff (g : Setting) (fuel : Nat) (s : Stmt) (m : Machine)
    (hm : m.Sound g) :
    ∃ declared, declared <+: s.action.declaredNames ∧
      (∀ v, (execute g fuel s m).1 = .value v → declared = s.action.declaredNames) ∧
      ∀ (f : Closure) (n : String), m.store.Given f.captured →
        ((execute g fuel s m).2.store.resolve? n f.captured ≠
          m.store.resolve? n f.captured ↔
          n ∈ declared ∧ m.SeenThrough f.captured n) := by
  obtain ⟨top, outer, hstack⟩ := List.exists_cons_of_ne_nil hm.inhabited
  have htop : top < m.store.frames.size :=
    hm.given top (hstack ▸ List.mem_cons_self)
  obtain ⟨declared, hprefix, hvalue, hdeclared⟩ :=
    Eval.perform_declares g fuel s.action hstack htop
  refine ⟨declared, hprefix, hvalue, ?_⟩
  intro f n hf
  constructor
  · intro hne
    have hboth : n ∈ declared ∧ top ∈ f.captured := by
      apply Decidable.byContradiction
      intro hcontra
      exact hne (hdeclared.resolve?_eq hf
        (Decidable.not_and_iff_not_or_not.mp hcontra))
    obtain ⟨inner, rest, hcaptured, hinner⟩ := List.eq_append_cons_of_mem hboth.2
    refine ⟨hboth.1, top, outer, inner, rest, hstack, hcaptured, ?_⟩
    -- A frame further inside that binds the name would hide the new one.
    cases hresolve : m.store.resolve? n inner with
    | none => rfl
    | some cell =>
        have hgiven : m.store.Given inner :=
          fun i hi => hf i (by simp [hcaptured, hi])
        have hresolve' := hdeclared.resolve?_eq (n := n) hgiven (.inr hinner)
        rw [hresolve] at hresolve'
        refine absurd ?_ hne
        rw [hcaptured]
        exact (Store.resolve?_append_of_some _ hresolve').trans
          (Store.resolve?_append_of_some _ hresolve).symm
  · rintro ⟨hn, hseen⟩
    obtain ⟨top', outer', inner, rest, hstack', hcaptured, hinner, hnone⟩ :=
      hseen.first
    obtain ⟨rfl, _⟩ := List.cons.inj (hstack.symm.trans hstack')
    have hgiven : m.store.Given inner := fun i hi => hf i (by simp [hcaptured, hi])
    rw [hcaptured]
    exact hdeclared.resolve?_ne hm.bound hn hgiven hinner hnone

/-- The interpreter after `init g; g = functi() y;`: the variable of `g` holds a
closure that was formed by an assignment. -/
def assignedClosure : Interpreter :=
  let y : Expr := ⟨.name "y", default⟩
  let formed : Expr :=
    ⟨.binary .assign ⟨.name "g", default⟩ ⟨.function ⟨[], y⟩, default⟩, default⟩
  let i :=
    ((Interpreter.new {}).run 4
      ⟨.declare [⟨"g", false, none, default⟩], true, default⟩).2
  (i.run 4 ⟨.evaluate formed, true, default⟩).2

/-- The next declaration, `init y = 5;`, reaches into that closure: `y` meant
nothing to it before, and means the new variable afterwards. -/
theorem assignedClosure_sees_declaration :
    ∃ f, (assignedClosure.machine.store.cell 0).value = .closure f ∧
      assignedClosure.machine.store.resolve? "y" f.captured = none ∧
      (execute assignedClosure.setting 4
        ⟨.declare [⟨"y", false, some ⟨.literal (.integer 5), default⟩, default⟩],
          true, default⟩
        assignedClosure.machine).2.store.resolve? "y" f.captured ≠ none := by
  have hsound : assignedClosure.Sound :=
    Interpreter.run_sound (Interpreter.run_sound (Interpreter.new_sound {}) 4 _) 4 _
  obtain ⟨declared, _, hvalue, hiff⟩ :=
    resolve?_execute_ne_iff assignedClosure.setting 4
    ⟨.declare [⟨"y", false, some ⟨.literal (.integer 5), default⟩, default⟩],
      true, default⟩
    assignedClosure.machine hsound.machine
  have hdeclared : declared = ["y"] := hvalue .null rfl
  have hgiven : assignedClosure.machine.store.Given [1] := by
    intro index hindex
    obtain rfl := List.mem_singleton.mp hindex
    decide
  refine ⟨⟨0, ⟨[], ⟨.name "y", default⟩⟩, [1]⟩, rfl, rfl, ?_⟩
  refine (hiff ⟨0, ⟨[], ⟨.name "y", default⟩⟩, [1]⟩ "y" hgiven).mpr ⟨?_, ?_⟩
  · rw [hdeclared]
    exact List.mem_singleton_self _
  · exact ⟨1, [], [], [], rfl, rfl, rfl⟩

end ScriptLang
