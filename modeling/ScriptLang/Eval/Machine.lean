import ScriptLang.Scope.Store

/-!
# The state of a run

A `Machine` is all that evaluation can change: the store, the stack of visible
frames, the number of calls in progress, and the console of the host.  What stays
fixed during a run (the limit on calls, the table of host functions and the
namespaces that can be pulled) is its `Setting`.

A host function might do anything to the store and the console when it is called.
The ones that scripts call do not: they see their arguments and the console, and
nothing of the store (`HostProcedure.Detached`).

Evaluation ends in an `Outcome`.  `Eval` threads it through one sequencing
operation: only a value goes on to the next step.  The last two combinators,
`inScope` and `inCall`, enter a scope and leave it again whatever the outcome.
-/

namespace ScriptLang

/-- What scripts reach of the outside: a text that is written to, until the other
side refuses it with a reason, and a flag that asks the run to stop. -/
structure Console where
  written : String := ""
  refusal : Option String := none
  quit : Bool := false
deriving DecidableEq, Repr

/-- How a host function ends.  A crash may leave a text behind. -/
inductive HostAnswer
  | value (value : Value)
  | fault (fault : Fault)
  | crash (words : Option String)

/-- What a host function does that sees its arguments and the console. -/
abbrev HostAction := List Value → Console → HostAnswer × Console

/-- Code that looks at nothing of a store and leaves all frames and cells as they
are.  What it remembers from one call to the next is on the console. -/
def HostProcedure.Detached
    (run : List Value → Store → Console → HostAnswer × Store × Console) : Prop :=
  ∃ action : HostAction, ∀ arguments store console,
    run arguments store console =
      ((action arguments console).1, store, (action arguments console).2)

/-- A host function in the table of a run.  When it is called, it is handed the
store as well. -/
structure HostProcedure where
  run : List Value → Store → Console → HostAnswer × Store × Console
  detached : HostProcedure.Detached run

/-- The procedure of an action. -/
def HostAction.procedure (action : HostAction) : HostProcedure where
  run arguments store console :=
    let (answer, console) := action arguments console
    (answer, store, console)
  detached := ⟨action, fun _ _ _ => rfl⟩

namespace HostProcedure

/-- What a procedure does to the console, whatever the store. -/
def action (p : HostProcedure) : HostAction := fun arguments console =>
  let (answer, _, console) := p.run arguments Store.empty console
  (answer, console)

instance : Coe HostProcedure HostAction := ⟨action⟩

instance : CoeFun HostProcedure fun _ => HostAction := ⟨action⟩

/-- A procedure gives what its action gives, and the store back. -/
theorem run_eq (p : HostProcedure) (arguments : List Value) (store : Store)
    (console : Console) :
    p.run arguments store console =
      ((p arguments console).1, store, (p arguments console).2) := by
  obtain ⟨action, hdetached⟩ := p.detached
  rw [HostProcedure.action, hdetached, hdetached]

end HostProcedure

/-- What a run cannot change. -/
structure Setting where
  maxCallDepth : Nat
  host : Array HostProcedure
  namespaces : List Namespace

/-- What a run can change. -/
structure Machine where
  store : Store
  stack : Stack
  callDepth : Nat
  nextIdentity : Nat
  console : Console

/-- How evaluation ends. -/
inductive Outcome (α : Type)
  /-- With a value. -/
  | value (value : α)
  /-- On the way out of a loop. -/
  | breaking
  /-- On the way out of a function, with its value. -/
  | returning (value : Value)
  /-- With a fault. -/
  | failed (fault : Fault)
  /-- With a crash of a host function. -/
  | crashed (words : Option String)
  /-- Not yet: more steps were needed than allowed. -/
  | exhausted

/-- A computation on a machine. -/
def Eval (α : Type) : Type := Machine → Outcome α × Machine

namespace Eval

/-- Ends with a value. -/
def yield (a : α) : Eval α := fun m => (.value a, m)

/-- Runs one computation and hands its value to the next; any other outcome is
final. -/
def andThen (p : Eval α) (next : α → Eval β) : Eval β := fun m =>
  match p m with
  | (.value a, m) => next a m
  | (.breaking, m) => (.breaking, m)
  | (.returning v, m) => (.returning v, m)
  | (.failed fault, m) => (.failed fault, m)
  | (.crashed words, m) => (.crashed words, m)
  | (.exhausted, m) => (.exhausted, m)

instance : Monad Eval where
  pure := yield
  bind := andThen

/-- Sequencing is associative, and to end with a value and go on is to go on. -/
instance : LawfulMonad Eval := by
  refine LawfulMonad.mk' Eval (fun p => ?_) (fun a next => rfl)
    (fun p next last => ?_)
  · funext m
    show Eval.andThen p Eval.yield m = p m
    unfold Eval.andThen
    obtain ⟨outcome, m₁⟩ := p m
    cases outcome <;> rfl
  · funext m
    show Eval.andThen (Eval.andThen p next) last m =
      Eval.andThen p (fun a => Eval.andThen (next a) last) m
    unfold Eval.andThen
    obtain ⟨outcome, m₁⟩ := p m
    cases outcome <;> rfl

/-- Ends with a given outcome. -/
def stop (outcome : Outcome α) : Eval α := fun m => (outcome, m)

/-- Ends with a fault. -/
def fail (fault : Fault) : Eval α := stop (.failed fault)

/-- Ends with the result of an operation that can fail. -/
def lift : Except Fault α → Eval α
  | .ok a => yield a
  | .error fault => fail fault

/-- The value of a name. -/
def access (name : String) : Eval Value :=
  fun m => lift (m.store.access name m.stack) m

/-- A name that is bound has the value of its cell. -/
theorem access_eq {m : Machine} {name : String} {cell : Nat}
    (hbound : m.store.resolve? name m.stack = some cell) :
    access name m = (.value (m.store.cell cell).value, m) := by
  simp only [access, Store.access, hbound]
  rfl

/-- Changes the store. -/
def update (operation : Stack → Store → Except Fault Unit × Store) : Eval Unit :=
  fun m =>
  let (result, store) := operation m.stack m.store
  lift result { m with store }

/-- Declares a new name. -/
def declare (name : String) (value : Value) (const : Bool) : Eval Unit :=
  update (Store.declare name value const)

/-- Replaces the innermost frame by a copy, so that closures formed before see no
later names. -/
def settle : Eval Unit := fun m =>
  match m.store.settle m.stack with
  | (.ok stack, store) => (.value (), { m with store, stack })
  | (.error fault, store) => (.failed fault, { m with store })

/-- Checks something about the visible frames. -/
def check (condition : Stack → Store → Except Fault Unit) : Eval Unit := fun m =>
  lift (condition m.stack m.store) m

/-- Forms a closure over the visible frames. -/
def close (definition : FunctionDef) : Eval Value := fun m =>
  (.value (.closure ⟨m.nextIdentity, definition, m.stack⟩),
    { m with nextIdentity := m.nextIdentity + 1 })

/-- Runs a computation inside a new frame, which is left again whatever the
outcome. -/
def inScope (kind : FrameKind) (p : Eval α) : Eval α := fun m =>
  let depth := m.stack.length
  let (stack, store) := m.store.push kind m.stack
  let (outcome, m) := p { m with stack, store }
  (outcome, { m with stack := m.stack.truncate depth })

/-- Runs a computation inside a new function frame on top of captured ones, and goes
back to the stack of the caller whatever the outcome. -/
def inCall (captured : Stack) (p : Eval α) : Eval α := fun m =>
  let caller := m.stack
  let (stack, store) := m.store.push .function captured
  let (outcome, m) := p { m with stack, store, callDepth := m.callDepth + 1 }
  (outcome, { m with stack := caller, callDepth := m.callDepth - 1 })

/-- Runs the body of a function: `return` ends it with a value, and `break` with
null. -/
def absorbing (p : Eval Value) : Eval Value := fun m =>
  match p m with
  | (.returning v, m) => (.value v, m)
  | (.breaking, m) => (.value .null, m)
  | (outcome, m) => (outcome, m)

end Eval

end ScriptLang
