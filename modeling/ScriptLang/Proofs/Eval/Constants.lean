import ScriptLang.Proofs.Eval.Restoration
import ScriptLang.Proofs.Scope.Evolution

/-!
# Constants and the names of the top level

The owner of an interpreter defines constants, adds functions and namespaces of the
host, runs statements and scripts, and calls values.  A `Request` is any of these,
and a session is a list of them.

Along a session the store changes by its own operations only, so a constant never
changes, wherever it was declared.  The names of the top level are in one frame.  A
statement may put a copy in the place of that frame, but the copy binds what the
frame did, so that a name of the top level means the same variable for ever
(`Machine.Retains`).
-/

namespace ScriptLang

/-! ## Evaluation and the store -/

/-- Copying the innermost frame changes no cell. -/
theorem Machine.evolves_settled (m : Machine) :
    m.store.Evolves m.settled.store := by
  unfold settled
  rcases m.settle_cases with ⟨_, hsettle⟩ | ⟨top, outer, _, hsettle⟩
  · rw [hsettle]
  · rw [hsettle]
    exact .single (.settle (top :: outer) m.store)

/-- Evaluation changes the store by the operations of the store. -/
def evolution (g : Setting) : Discipline g :=
  { scoping g with
    keeps := fun m m' => m.store.Evolves m'.store
    stays := fun m m' => m.store.Evolves m'.store
    keeps_refl := fun _ => .refl
    keeps_trans := fun h h' => h.trans h'
    stays_of_keeps := fun h => h
    stays_trans := fun h h' => h.trans h'
    knows_stays := fun _ _ => trivial
    mayBreak_stays := fun _ _ => trivial
    mayReturn_stays := fun _ _ => trivial
    assign := fun _ _ => ⟨trivial, .single (.assign _ _ _ _)⟩
    close := fun _ _ => ⟨trivial, .refl, trivial⟩
    host := fun _ _ _ _ => ⟨trivial, .refl, fun _ _ => trivial⟩
    declare := fun _ _ => ⟨trivial, .single (.declare _ _ _ _ _)⟩
    override := fun _ _ => ⟨trivial, .single (.override _ _ _ _ _)⟩
    settle := fun _ => ⟨trivial, Machine.evolves_settled _⟩
    leave := fun {m _ kind} _ _ h => ⟨trivial, .head (.push kind m.stack m.store) h⟩
    leaveCall :=
      fun {m _ f} _ _ _ h => ⟨trivial, .head (.push .function f.captured m.store) h⟩
        }

/-- Evaluation changes the store by its own operations only. -/
theorem evaluate_evolves (g : Setting) (fuel : Nat) (e : Expr) (m : Machine) :
    m.store.Evolves (evaluate g fuel e m).2.store :=
  ((evolution g).evaluate_disciplined fuel e m trivial).moves

/-- Execution changes the store by its own operations only. -/
theorem execute_evolves (g : Setting) (fuel : Nat) (s : Stmt) (m : Machine) :
    m.store.Evolves (execute g fuel s m).2.store :=
  ((evolution g).execute_disciplined fuel s (m := m) trivial).moves

/-- A call changes the store by its own operations only. -/
theorem call_evolves (g : Setting) (fuel : Nat) (callee : Value)
    (arguments : List Value) (m : Machine) :
    m.store.Evolves (Eval.call (evaluate g fuel) g callee arguments m).2.store :=
  (Discipline.call_at ((evolution g).evaluate_disciplined fuel) trivial trivial
    fun _ _ => trivial).moves

/-- A call leaves the visible frames as they are. -/
theorem call_kept (g : Setting) (fuel : Nat) (callee : Value)
    (arguments : List Value) (m : Machine) :
    m.Kept (Eval.call (evaluate g fuel) g callee arguments m).2 :=
  (Discipline.call_at ((scoping g).evaluate_disciplined fuel) trivial trivial
    fun _ _ => trivial).moves

/-! ## What stays at the top level -/

/-- The machine at the top level: a single frame is visible, and frames bind names
only to variables that have been given out. -/
structure Machine.AtTop (m : Machine) (top : Nat) : Prop where
  stack_eq : m.stack = [top]
  given : top < m.store.frames.size
  bound : m.store.Bound

/-- From a machine at the top level to one that is there again.  The store has
changed by its operations only, and names mean the variables that they did. -/
structure Machine.Retains (m m' : Machine) : Prop where
  evolves : m.store.Evolves m'.store
  resolve?_eq : ∀ name cell, m.store.resolve? name m.stack = some cell →
    m'.store.resolve? name m'.stack = some cell
  atTop : ∃ top, m'.AtTop top

namespace Machine

variable {m m' m'' : Machine} {top : Nat}

theorem Retains.refl (h : m.AtTop top) : m.Retains m :=
  ⟨.refl, fun _ _ hresolve => hresolve, top, h⟩

/-- What is retained twice is retained. -/
theorem Retains.trans (h : m.Retains m') (h' : m'.Retains m'') : m.Retains m'' where
  evolves := h.evolves.trans h'.evolves
  resolve?_eq name cell hresolve :=
    h'.resolve?_eq name cell (h.resolve?_eq name cell hresolve)
  atTop := h'.atTop

/-- A single visible frame decides what names mean. -/
theorem AtTop.resolve? (h : m.AtTop top) (name : String) :
    m.store.resolve? name m.stack = (m.store.frame top).find? name := by
  rw [h.stack_eq]
  unfold Store.resolve? Store.resolve?
  cases (m.store.frame top).find? name <;> rfl

/-- A computation that keeps the visible frames retains the names of the top
level. -/
theorem Kept.retains (hkept : m.Kept m') (hevolves : m.store.Evolves m'.store)
    (h : m.AtTop top) :
    m.Retains m' := by
  have htop : m'.AtTop top := ⟨hkept.stack_eq.trans h.stack_eq,
    Nat.lt_of_lt_of_le h.given hkept.grows.size_le, hevolves.bound h.bound⟩
  refine ⟨hevolves, ?_, top, htop⟩
  intro name cell hresolve
  rw [h.resolve?] at hresolve
  rw [htop.resolve?, hkept.grows.frame_eq top h.given]
  exact hresolve

/-- A frame that takes the place of the one at the top level binds what that one
did. -/
theorem Widened.retains (hwidened : m.Widened m')
    (hevolves : m.store.Evolves m'.store) (hgiven : m'.store.Given m'.stack)
    (h : m.AtTop top) : m.Retains m' := by
  -- The old frame has been widened first, and the copy was made of it then.
  have hframe : ∃ top', m'.stack = [top'] ∧
      m'.store.frame top' = m'.store.frame top := by
    rcases hwidened.copied with hstack | ⟨old, outer, copy, hold, hstack, hframe⟩
    · exact ⟨top, hstack.trans h.stack_eq, rfl⟩
    · rw [h.stack_eq] at hold
      obtain ⟨rfl, rfl⟩ := List.cons.inj hold
      exact ⟨copy, hstack, hframe⟩
  obtain ⟨top', hstack, hframe⟩ := hframe
  have hgiven' : top' < m'.store.frames.size :=
    hgiven top' (hstack ▸ List.mem_singleton_self top')
  have htop' : m'.AtTop top' := ⟨hstack, hgiven', hevolves.bound h.bound⟩
  refine ⟨hevolves, ?_, top', htop'⟩
  intro name cell hresolve
  rw [h.resolve?] at hresolve
  rw [htop'.resolve?, hframe]
  exact hwidened.find?_eq top h.given name cell hresolve

/-- A declaration at the top level takes no name away. -/
theorem retains_declare (h : m.AtTop top) (name : String) (v : Value)
    (const : Bool) :
    m.Retains (m.updated (Store.declare name v const)) := by
  have hevolves : m.store.Evolves (m.updated (Store.declare name v const)).store :=
    .single (.declare name v const m.stack m.store)
  rcases Store.declare_cases name v const m.stack m.store with
    ⟨fault, hdeclare⟩ | ⟨index, outer, hstack, hunbound, hdeclare⟩
  · rw [updated_of_eq hdeclare]
    exact .refl h
  · rw [h.stack_eq] at hstack
    obtain ⟨rfl, rfl⟩ := List.cons.inj hstack
    rw [updated_of_eq hdeclare] at hevolves ⊢
    have hsize := Store.size_bindNew m.store top name v const
    have htop : AtTop { m with store := m.store.bindNew top name v const } top :=
      ⟨h.stack_eq, hsize ▸ h.given, hevolves.bound h.bound⟩
    refine ⟨hevolves, ?_, top, htop⟩
    intro other cell hresolve
    rw [h.resolve?] at hresolve
    rw [htop.resolve?]
    show ((m.store.bindNew top name v const).frame top).find? other = some cell
    have hother : other ≠ name := by
      intro heq
      rw [heq, hunbound] at hresolve
      cases hresolve
    rw [Store.frame_bindNew_self _ _ _ _ h.given, Frame.find?_bind_of_ne _ _ hother]
    exact hresolve

end Machine

/-! ## Sessions -/

/-- What the owner of an interpreter can ask of it.  Scripts and calls are bounded
in steps. -/
inductive Request
  | define (name : String) (value : Value)
  | addNative (name : String) (arity : Option Nat) (action : HostAction)
  | addNamespace (space : Namespace)
  | install (registry : Registry)
  | run (fuel : Nat) (statement : Stmt)
  | runScript (fuel : Nat) (parser : ParseState)
  | call (fuel : Nat) (callee : Value) (arguments : List Value)

namespace Interpreter

variable {i j : Interpreter}

/-- The interpreter after a request, whether it was granted or not. -/
def serve (i : Interpreter) : Request → Interpreter
  | .define name value => (i.defineGlobal name value).2
  | .addNative name arity action => (i.addNative name arity action).2
  | .addNamespace space => i.addNamespace space
  | .install registry => (registry.install i).2
  | .run fuel statement => (i.run fuel statement).2
  | .runScript fuel parser => (i.runScript fuel parser).interpreter
  | .call fuel callee arguments => (i.call fuel callee arguments).2

/-- The interpreter after requests, first one first. -/
def session (requests : List Request) (i : Interpreter) : Interpreter :=
  requests.foldl serve i

/-- Defining a name at the top level takes no other name away. -/
theorem defineGlobal_retains {top : Nat} (name : String) (v : Value)
    (h : i.machine.AtTop top) :
    i.machine.Retains (i.defineGlobal name v).2.machine :=
  Machine.retains_declare h name v true

/-- A statement takes no name of the top level away. -/
theorem run_retains {top : Nat} (fuel : Nat) (s : Stmt) (h : i.machine.AtTop top) :
    i.machine.Retains (i.run fuel s).2.machine := by
  have hgiven : i.machine.store.Given i.machine.stack := by
    rw [h.stack_eq]
    intro index hindex
    rw [List.mem_singleton.mp hindex]
    exact h.given
  obtain ⟨hextended, hsteady⟩ := ((signals i.setting).execute_disciplined fuel s
    (m := i.machine) trivial).moves
  have hevolves := execute_evolves i.setting fuel s i.machine
  have hretains :=
    (execute_widened i.setting fuel s hgiven).retains hevolves
      (hsteady.visible hgiven).1 h
  have hstack := reset_stack hextended
  rw [run_machine]
  obtain ⟨_, hresolve, top', htop'⟩ := hretains
  refine ⟨hevolves, ?_, top', hstack.trans htop'.stack_eq, htop'.given, htop'.bound⟩
  intro name cell hfound
  rw [hstack]
  exact hresolve name cell hfound

/-- Entering functions into the table of the host leaves the machine alone. -/
theorem addMembers_machine (functions : List HostFunction) (i : Interpreter) :
    (Registry.addMembers functions i).2.machine = i.machine := by
  induction functions generalizing i with
  | nil => rfl
  | cons f rest ih => exact ih _

/-- Installing a namespace takes no name of the top level away. -/
theorem installNamespace_retains {top : Nat} (space : HostNamespace)
    (h : i.machine.AtTop top) :
    i.machine.Retains (Registry.installNamespace space i).machine := by
  have hmachine : (Registry.installNamespace space i).machine =
      { i.machine with nextIdentity := i.machine.nextIdentity + 1 } :=
    addMembers_machine space.functions i.fresh.2
  rw [hmachine]
  exact ⟨.refl, fun _ _ hresolve => hresolve, top, h.stack_eq, h.given, h.bound⟩

/-- Nor does installing several of them. -/
theorem installNamespaces_retains {top : Nat} (spaces : List HostNamespace)
    (h : i.machine.AtTop top) :
    i.machine.Retains (spaces.foldl
      (fun i space => Registry.installNamespace space i) i).machine := by
  apply Registry.installNamespaces_induction
    (I := fun j => i.machine.Retains j.machine)
  · intro space _ j hj
    obtain ⟨top', htop'⟩ := hj.atTop
    exact hj.trans (installNamespace_retains space htop')
  · exact .refl h

/-- Installing functions takes no name of the top level away. -/
theorem installFunctions_retains {top : Nat} (functions : List HostFunction)
    (h : i.machine.AtTop top) :
    i.machine.Retains (Registry.installFunctions functions i).2.machine := by
  apply Registry.installFunctions_induction
    (I := fun j => i.machine.Retains j.machine)
  · intro f _ j hj
    obtain ⟨top', htop'⟩ := hj.atTop
    exact hj.trans (defineGlobal_retains
      (i := (j.addNative f.name f.arity f.action).2) f.name _ htop')
  · exact .refl h

/-- Installing a registry takes no name of the top level away. -/
theorem install_retains {top : Nat} (r : Registry) (h : i.machine.AtTop top) :
    i.machine.Retains (r.install i).2.machine := by
  have hfunctions := installFunctions_retains r.sorted h
  obtain ⟨top₁, htop₁⟩ := hfunctions.atTop
  unfold Registry.install
  split
  · rename_i hinstall
    rw [hinstall] at hfunctions htop₁
    exact hfunctions.trans (installNamespaces_retains r.namespaces htop₁)
  · rename_i hinstall
    rw [hinstall] at hfunctions
    exact hfunctions

/-- No request takes a name of the top level away. -/
theorem serve_retains {top : Nat} (request : Request) (h : i.machine.AtTop top) :
    i.machine.Retains (i.serve request).machine := by
  cases request with
  | define name value => exact defineGlobal_retains name value h
  | addNative name arity action => exact .refl h
  | addNamespace space => exact .refl h
  | install registry => exact install_retains registry h
  | run fuel statement => exact run_retains fuel statement h
  | runScript fuel parser =>
      apply runUpTo_induction (I := fun j => i.machine.Retains j.machine)
      · intro statement _ j hj
        obtain ⟨top', htop'⟩ := hj.atTop
        exact hj.trans (run_retains fuel statement htop')
      · exact .refl h
  | call fuel callee arguments =>
      exact (call_kept i.setting fuel callee arguments i.machine).retains
        (call_evolves i.setting fuel callee arguments i.machine) h

/-- Nor does any sequence of requests. -/
theorem session_retains {top : Nat} (requests : List Request)
    (h : i.machine.AtTop top) :
    i.machine.Retains (i.session requests).machine := by
  induction requests generalizing i top with
  | nil => exact .refl h
  | cons request rest ih =>
      have hserved := serve_retains request h
      obtain ⟨top', htop'⟩ := hserved.atTop
      exact hserved.trans (ih htop')

theorem new_atTop (limits : Limits) : (new limits).machine.AtTop 0 where
  stack_eq := rfl
  given := (new_sound limits).machine.given 0 List.mem_cons_self
  bound := (new_sound limits).machine.bound

/-! ## Constants at the top level -/

/-- A name is bound at the top level to a constant with a given value. -/
def Fixes (i : Interpreter) (name : String) (v : Value) : Prop :=
  ∃ cell, i.machine.store.resolve? name i.machine.stack = some cell ∧
    i.machine.store.cell cell = ⟨v, true⟩

/-- A fixed name has its value. -/
theorem Fixes.global? {name : String} {v : Value} (h : i.Fixes name v) :
    i.global? name = some v := by
  obtain ⟨cell, hresolve, hcell⟩ := h
  unfold Interpreter.global? Store.access
  rw [hresolve]
  dsimp only
  rw [hcell]
  rfl

/-- A name of the top level has a value if it means a cell. -/
theorem global?_isSome_iff {name : String} :
    (i.global? name).isSome ↔ ∃ cell,
      i.machine.store.resolve? name i.machine.stack = some cell := by
  unfold Interpreter.global? Store.access
  cases i.machine.store.resolve? name i.machine.stack with
  | none => simp [Except.toOption]
  | some cell => simp [Except.toOption]

/-- A fixed name stays fixed. -/
theorem Fixes.retained {top : Nat} {name : String} {v : Value} (h : i.Fixes name v)
    (htop : i.machine.AtTop top) (hretains : i.machine.Retains j.machine) :
    j.Fixes name v := by
  obtain ⟨cell, hresolve, hcell⟩ := h
  have hlt : cell < i.machine.store.cells.size := htop.bound.resolve? hresolve
  have hsame := hretains.evolves.cell_eq hlt (by rw [hcell])
  exact ⟨cell, hretains.resolve?_eq name cell hresolve, hsame.trans hcell⟩

/-- A constant at the top level has its value for ever. -/
theorem Fixes.session_global? {top : Nat} {name : String} {v : Value}
    (h : i.Fixes name v) (htop : i.machine.AtTop top) (later : List Request) :
    (i.session later).global? name = some v :=
  (h.retained htop (session_retains later htop)).global?

/-- A name that the owner has defined is fixed. -/
theorem defineGlobal_fixes {top : Nat} {name : String} {v : Value}
    (h : i.machine.AtTop top) (hok : (i.defineGlobal name v).1 = .ok ()) :
    (i.defineGlobal name v).2.Fixes name v := by
  rcases Store.declare_cases name v true i.machine.stack i.machine.store with
    ⟨fault, hdeclare⟩ | ⟨index, outer, hstack, _, hdeclare⟩
  · simp [defineGlobal, hdeclare] at hok
  · rw [h.stack_eq] at hstack
    obtain ⟨rfl, rfl⟩ := List.cons.inj hstack
    have hmachine : (i.defineGlobal name v).2.machine =
        { i.machine with store := i.machine.store.bindNew top name v true } := by
      simp only [defineGlobal, hdeclare]
    unfold Fixes
    rw [hmachine]
    refine ⟨i.machine.store.cells.size, ?_, ?_⟩
    · simp only [h.stack_eq, Store.resolve?]
      rw [Store.frame_bindNew_self _ _ _ _ h.given, Frame.find?_bind_self]
    · rw [Store.cell_bindNew, if_pos rfl]

/-- Functions that have all been installed are constants. -/
theorem installFunctions_fixes {top : Nat} {functions : List HostFunction}
    (h : i.machine.AtTop top)
    (hok : (Registry.installFunctions functions i).1 = .ok ()) :
    ∀ f ∈ functions, ∃ native : Native, native.name = f.name ∧
      native.arity = f.arity ∧
      (Registry.installFunctions functions i).2.Fixes f.name (.native native) := by
  induction functions generalizing i top with
  | nil => simp
  | cons f rest ih =>
      have hadded : (i.addNative f.name f.arity f.action).2.machine.AtTop top := h
      unfold Registry.installFunctions at hok ⊢
      dsimp only at hok ⊢
      split at hok
      · rename_i i₁ hdefine
        have hfixes := defineGlobal_fixes hadded (by rw [hdefine])
        have hdefined :=
          defineGlobal_retains f.name
            (.native (i.addNative f.name f.arity f.action).1) hadded
        rw [hdefine] at hfixes hdefined
        obtain ⟨top₁, htop₁⟩ := hdefined.atTop
        intro other hother
        rcases List.mem_cons.mp hother with rfl | hother
        · exact ⟨_, rfl, rfl, hfixes.retained htop₁
            (installFunctions_retains rest htop₁)⟩
        · exact ih htop₁ hok other hother
      · cases hok

/-- A registry that was installed leaves its functions behind as constants. -/
theorem install_fixes {top : Nat} {r : Registry} (h : i.machine.AtTop top)
    (hok : (r.install i).1 = .ok ()) {f : HostFunction} (hf : f ∈ r.functions) :
    ∃ native : Native, native.name = f.name ∧ native.arity = f.arity ∧
      (r.install i).2.Fixes f.name (.native native) := by
  have hsorted : f ∈ r.sorted := (List.mergeSort_perm _ _).mem_iff.mpr hf
  have hretains := installFunctions_retains r.sorted h
  obtain ⟨top₁, htop₁⟩ := hretains.atTop
  unfold Registry.install at hok ⊢
  split at hok
  · rename_i i₁ hinstall
    obtain ⟨native, hname, harity, hfixes⟩ :=
      installFunctions_fixes h (by rw [hinstall]) f hsorted
    rw [hinstall] at hfixes htop₁
    have hspaces := installNamespaces_retains r.namespaces htop₁
    exact ⟨native, hname, harity, hfixes.retained htop₁ hspaces⟩
  · cases hok

/-! ## Whole sessions -/

/-- Constants and the names of the top level are stable.  The store changes by its
own operations only, from any point of a run on, and none of these changes a
constant.  So, whatever is asked of an interpreter, a name that is defined at the
top level stays defined, and a constant there keeps its value; in particular, what
was defined by the owner, and every function of a registry that has been installed.

Functions of the host take part as procedures that touch no frame and no cell
(`HostProcedure.detached`). -/
theorem constants_stable (limits : Limits) (before after : List Request) :
    let i := (new limits).session before
    let j := i.session after
    (∀ s t : Store, s.Evolves t →
      ∀ c < s.cells.size, (s.cell c).const = true → t.cell c = s.cell c) ∧
    (∀ (g : Setting) (fuel : Nat) (m : Machine),
      (∀ e, m.store.Evolves (evaluate g fuel e m).2.store) ∧
      (∀ s, m.store.Evolves (execute g fuel s m).2.store) ∧
      ∀ callee arguments, m.store.Evolves
        (Eval.call (evaluate g fuel) g callee arguments m).2.store) ∧
    i.machine.store.Evolves j.machine.store ∧
    (∀ name, (i.global? name).isSome → (j.global? name).isSome) ∧
    (∀ name v, i.Fixes name v → i.global? name = some v ∧ j.global? name = some v) ∧
    (∀ name v, (i.defineGlobal name v).1 = .ok () →
      ∀ later, ((i.defineGlobal name v).2.session later).global? name = some v) ∧
    ∀ r : Registry, (r.install i).1 = .ok () → ∀ f ∈ r.functions, ∃ native : Native,
      native.name = f.name ∧ native.arity = f.arity ∧
        ∀ later, ((r.install i).2.session later).global? f.name =
            some (.native native) := by
  intro i j
  obtain ⟨top, htop⟩ : ∃ top, i.machine.AtTop top :=
    (session_retains before (new_atTop limits)).atTop
  have hretains : i.machine.Retains j.machine := session_retains after htop
  refine ⟨fun s t h c hc hconst => h.cell_eq hc hconst, ?_, hretains.evolves,
    ?_, ?_, ?_, ?_⟩
  · intro g fuel m
    exact ⟨fun e => evaluate_evolves g fuel e m,
      fun s => execute_evolves g fuel s m,
      fun callee arguments => call_evolves g fuel callee arguments m⟩
  · intro name hdefined
    rw [global?_isSome_iff] at hdefined ⊢
    obtain ⟨cell, hresolve⟩ := hdefined
    exact ⟨cell, hretains.resolve?_eq name cell hresolve⟩
  · intro name v hfixes
    exact ⟨hfixes.global?, hfixes.session_global? htop after⟩
  · intro name v hok
    obtain ⟨top₁, htop₁⟩ := (defineGlobal_retains name v htop).atTop
    exact (defineGlobal_fixes htop hok).session_global? htop₁
  · intro r hok f hf
    obtain ⟨native, hname, harity, hfixes⟩ := install_fixes htop hok hf
    obtain ⟨top₁, htop₁⟩ := (install_retains r htop).atTop
    exact ⟨native, hname, harity, hfixes.session_global? htop₁⟩

/-- Neither an assignment nor a definition changes a constant `x`, and a function
that is installed next to it stays where it is as well. -/
theorem constant_outlives_assignment :
    let declaration : Stmt :=
      ⟨.declare [⟨"x", true, some ⟨.literal (.integer 1), default⟩, default⟩],
        true, default⟩
    let assignment : Stmt :=
      ⟨.evaluate ⟨.binary .assign ⟨.name "x", default⟩
        ⟨.literal (.integer 2), default⟩, default⟩,
        true, default⟩
    let i := (new {}).session [.run 3 declaration]
    let r : Registry := ⟨[⟨"quit", some 0, Host.quit⟩], []⟩
    let requests : List Request :=
      [.run 3 assignment, .define "x" (.int 2), .define "quit" (.int 2)]
    (i.run 3 assignment).1 = .failed
      ⟨.assignmentToConst "x", assignment.span.start⟩ ∧
      (i.session requests).global? "x" = some (.int 1) ∧
      ∃ native : Native, native.name = "quit" ∧
        ((r.install i).2.session requests).global? "quit" =
          some (.native native) := by
  intro declaration assignment i r requests
  obtain ⟨_, _, _, _, hconstants, _, hinstalled⟩ :=
    constants_stable {} [.run 3 declaration] requests
  have hx : i.Fixes "x" (.int 1) := ⟨0, rfl, rfl⟩
  have hok : (r.install i).1 = .ok () := by
    simp only [Registry.install, Registry.sorted, r, List.mergeSort_singleton]
    rfl
  obtain ⟨native, hname, _, hquit⟩ := hinstalled r hok _ List.mem_cons_self
  exact ⟨rfl, (hconstants "x" (.int 1) hx).2, native, hname, hquit requests⟩

end Interpreter

end ScriptLang
