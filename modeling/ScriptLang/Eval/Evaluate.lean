import ScriptLang.Eval.Machine
import ScriptLang.Eval.Range
import ScriptLang.Value.Operation

/-!
# Evaluation

`evaluate` gives an expression its outcome.  It is defined by recursion on a number
of steps, which bounds both the nesting of expressions and calls and the turns of
each loop; with too few steps the outcome is `exhausted`, and with enough of them it
no longer depends on their number.

Every construct is a function of the evaluator of what is nested in it, here always
called `ev`.
-/

namespace ScriptLang

namespace Eval

variable (ev : Expr → Eval Value)

/-- The truth value of a condition. -/
def truth (v : Value) : Eval Bool :=
  match v.bool? with
  | some b => yield b
  | none => fail (.expectedBoolean v.typeText)

/-- The type on the right of a type test. -/
def typeOperand (e : Expr) : Eval TypeName :=
  match e.node with
  | .type target => yield target
  | _ => fail (.internal "expected a type name")

/-- Evaluates an optional expression. -/
def optional (otherwise : Value) : Option Expr → Eval Value
  | some e => ev e
  | none => yield otherwise

/-- Evaluates expressions from left to right. -/
def all : List Expr → Eval (List Value)
  | [] => yield []
  | e :: rest => do
    let value ← ev e
    let values ← all rest
    return value :: values

/-! ## Calls -/

/-- Binds parameters to arguments, one after the other. -/
def bindParameters : List Parameter → List Value → Eval Unit
  | p :: parameters, value :: values => do
    if p.nonNull && value.isNull then fail (.nullArgument p.name)
    else
      update (Store.override p.name value p.const)
      bindParameters parameters values
  | _, _ => yield ()

/-- Runs the body of a closure on arguments. -/
def callClosure (g : Setting) (f : Closure) (arguments : List Value) : Eval Value :=
  fun m =>
  let expected := f.definition.parameters.length
  if expected ≠ arguments.length then
    (.failed (.argumentCount expected arguments.length), m)
  else if g.maxCallDepth ≤ m.callDepth then (.failed (.callDepth g.maxCallDepth), m)
  else
    inCall f.captured (absorbing do
      bindParameters f.definition.parameters arguments
      ev f.definition.body) m

/-- Runs a host function on arguments.  A function without an entry in the table
does nothing. -/
def callNative (g : Setting) (f : Native) (arguments : List Value) : Eval Value :=
  fun m =>
  if f.arity.any (· ≠ arguments.length) then
    (.failed (.argumentCount (f.arity.getD 0) arguments.length), m)
  else
    match g.host[f.entry]? with
    | none => (.value .null, m)
    | some procedure =>
      let (answer, store, console) := procedure.run arguments m.store m.console
      let m := { m with store, console }
      match answer with
      | .value v => (.value v, m)
      | .fault fault => (.failed fault, m)
      | .crash words => (.crashed words, m)

/-- A call of a host function, by what the function does to the console. -/
theorem callNative_eq (g : Setting) (f : Native) (arguments : List Value)
    (m : Machine) :
    callNative g f arguments m =
      if f.arity.any (· ≠ arguments.length) then
        (.failed (.argumentCount (f.arity.getD 0) arguments.length), m)
      else
        match g.host[f.entry]? with
        | none => (.value .null, m)
        | some action =>
          let (answer, console) := action arguments m.console
          let m := { m with console }
          match answer with
          | .value v => (.value v, m)
          | .fault fault => (.failed fault, m)
          | .crash words => (.crashed words, m) := by
  unfold callNative
  split
  · rfl
  · split
    · rfl
    · rw [HostProcedure.run_eq]

/-- Calls a value. -/
def call (g : Setting) (callee : Value) (arguments : List Value) : Eval Value :=
  match callee with
  | .closure f => callClosure ev g f arguments
  | .native f => callNative g f arguments
  | other => fail (.notCallable other.typeText)

/-! ## Statements -/

/-- Declares the names of a declaration, one after the other. -/
def declareAll : List Binding → Eval Unit
  | [] => yield ()
  | b :: rest => do
    let value ← optional ev .null b.value
    declare b.name value b.const
    declareAll rest

/-- Follows a path of members, and gives the last name with its value. -/
def follow (name : String) (value : Value) :
    List String → Except Fault (String × Value)
  | [] => .ok (name, value)
  | next :: rest =>
    match value.member next with
    | .ok inner => follow next inner rest
    | .error fault => .error fault

/-- The name and the value that a path of names brings in. -/
def resolvePath (g : Setting) : List String → Except Fault (String × Value)
  | [] => .error (.internal "empty import path")
  | first :: rest =>
    match g.namespaces.find? fun space => space.name = first with
    | some space => follow first (.namespace_ space) rest
    | none => .error (.unknownNamespace first)

/-- Performs an action. -/
def perform (g : Setting) : Action → Eval Value
  | .pull path => do
    let (name, value) ← lift (resolvePath g path)
    declare name value false
    settle
    return .null
  | .declare bindings => do
    declareAll ev bindings
    settle
    return .null
  | .break_ => do
    check Store.checkBreak
    stop .breaking
  | .breakIf condition => do
    if ← truth (← ev condition) then
      check Store.checkBreak
      stop .breaking
    else return .null
  | .return_ value => do
    check Store.checkReturn
    stop (.returning (← optional ev .null value))
  | .evaluate e => ev e

/-- Performs statements in order; the last one without a semicolon gives the
value. -/
def sequence (g : Setting) (result : Value) : List Stmt → Eval Value
  | [] => yield result
  | s :: rest => do
    let value ← perform ev g s.action
    sequence g (if s.terminated then result else value) rest

/-! ## Conditionals and loops -/

/-- Evaluates the first alternative whose condition holds. -/
def alternatives (otherwise : Option Expr) : List Alternative → Eval Value
  | [] => optional ev .null otherwise
  | a :: rest => do
    if ← truth (← ev a.condition) then ev a.body
    else alternatives otherwise rest

/-- One turn of a loop in a frame of its own. -/
def turn (counter : Option (String × Value)) (body : Expr) : Eval Value :=
  inScope .loop do
    match counter with
    | some (name, value) => declare name value false
    | none => yield ()
    ev body

/-- Turns a loop for each value of a range, at most `fuel` times. -/
def forLoop (counter : Option String) (body : Expr) :
    Nat → CounterRange → Eval Value
  | 0, _ => stop .exhausted
  | fuel + 1, range => fun m =>
    match range.next? with
    | none => (.value .null, m)
    | some (value, range) =>
      match turn ev (counter.map fun name => (name, value)) body m with
      | (.value _, m) => forLoop counter body fuel range m
      | (.breaking, m) => (.value .null, m)
      | (outcome, m) => (outcome, m)

/-- Turns a loop while a condition holds, at most `fuel` times. -/
def whileLoop (condition body : Expr) : Nat → Eval Value
  | 0 => stop .exhausted
  | fuel + 1 => fun m =>
    match andThen (ev condition) truth m with
    | (.value true, m) =>
      match turn ev none body m with
      | (.value _, m) => whileLoop condition body fuel m
      | (.breaking, m) => (.value .null, m)
      | (outcome, m) => (outcome, m)
    | (.value false, m) => (.value .null, m)
    | (.breaking, m) => (.breaking, m)
    | (.returning v, m) => (.returning v, m)
    | (.failed fault, m) => (.failed fault, m)
    | (.crashed words, m) => (.crashed words, m)
    | (.exhausted, m) => (.exhausted, m)

/-! ## Operators -/

/-- Evaluates an assignment, whose value is what was stored. -/
def assign (target : Expr) (o : Operator) (e : Expr) : Eval Value :=
  match target.node with
  | .name name => do
    let value ← ev e
    let value ←
      match o.compoundBase? with
      | some base => do lift ((← access name).arithmetic base value)
      | none => yield value
    update (Store.assign name value)
    return value
  | _ => fail .invalidTarget

/-- Evaluates a binary operation.  Logical and null-handling operators evaluate
their right operand only when the left one does not decide. -/
def binary (g : Setting) (o : Operator) (left right : Expr) : Eval Value :=
  if o.isAssignment then assign ev left o right
  else
    match o with
    | .and => do
      if ← truth (← ev left) then return .bool (← truth (← ev right))
      else return .bool false
    | .or => do
      if ← truth (← ev left) then return .bool true
      else return .bool (← truth (← ev right))
    | .nullCoalescing => do
      let value ← ev left
      if value.isNull then ev right else return value
    | .nullsafePipe => do
      let value ← ev left
      if value.isNull then return .null
      else call ev g (← ev right) [value]
    | .is => do
      let value ← ev left
      return .bool (value.hasType (← typeOperand right))
    | .isNot => do
      let value ← ev left
      return .bool (!value.hasType (← typeOperand right))
    | .access => do
      let target ← ev left
      match right.node with
      | .name member => lift (target.member member)
      | _ => fail (.internal "member access needs a name")
    | o => do
      let a ← ev left
      let b ← ev right
      lift (a.applyBinary o b)

/-! ## Matching -/

/-- Whether a comparison of the matched value with another one holds. -/
def holds (o : Operator) (argument value : Value) : Bool :=
  (argument.compare o value).bool?.getD false

/-- Whether a pattern that is an expression matches: a boolean decides by itself,
any other value must be equal to the matched one. -/
def matchValue (argument : Value) : Value → Bool
  | .bool guard => guard
  | value => holds .equal argument value

/-- Whether a pattern matches a value. -/
def matchPattern (argument : Value) : Expr → Eval Bool
  | ⟨.grouping inner, _⟩ => matchPattern argument inner
  | ⟨.binary .matchAnd left right, _⟩ => do
    if ← matchPattern argument left then matchPattern argument right
    else return false
  | ⟨.binary .matchOr left right, _⟩ => do
    if ← matchPattern argument left then return true
    else matchPattern argument right
  | ⟨.unary .matchIs operand, _⟩ =>
      do return argument.hasType (← typeOperand operand)
  | ⟨.unary .matchIsNot operand, _⟩ =>
      do return !argument.hasType (← typeOperand operand)
  | ⟨.literal value, _⟩ => yield (holds .equal argument (.ofLiteral value))
  | ⟨.unary o operand, span⟩ =>
    match o.matchComparison? with
    | some comparison => do return holds comparison argument (← ev operand)
    | none => do return matchValue argument (← ev ⟨.unary o operand, span⟩)
  | pattern => do return matchValue argument (← ev pattern)

/-- Evaluates the first branch whose pattern matches, and the first default branch
if none does. -/
def branches (argument : Value) (fallback : Option Expr) : List Branch → Eval Value
  | [] => optional ev .null fallback
  | b :: rest =>
    match b.pattern with
    | none => branches argument (fallback.or (some b.consequent)) rest
    | some pattern => do
      if ← matchPattern ev argument pattern then ev b.consequent
      else branches argument fallback rest

/-! ## Expressions -/

/-- Evaluates one layer of an expression, whose loops turn at most `fuel` times. -/
def layer (g : Setting) (fuel : Nat) (e : Expr) : Eval Value :=
  match e.node with
  | .block statements => inScope .block (sequence ev g .null statements)
  | .conditional alternatives otherwise =>
      Eval.alternatives ev otherwise alternatives
  | .forLoop counter start stop step body => do
    let start ← optional ev (.int 0) start
    let stop ← ev stop
    let step ← optional ev (.int 1) step
    forLoop ev counter body fuel (← lift (CounterRange.of start stop step))
  | .whileLoop condition body => whileLoop ev condition body fuel
  | .function definition => close definition
  | .matching argument branches => do Eval.branches ev (← ev argument) none branches
  | .grouping inner => ev inner
  | .binary operator left right => binary ev g operator left right
  | .unary operator operand => do lift ((← ev operand).applySign operator)
  | .call callee arguments => do
    let callee ← ev callee
    call ev g callee (← all ev arguments)
  | .name text => access text
  | .literal value => yield (.ofLiteral value)
  | .cast target operand => do lift ((← ev operand).cast target)
  | .type target => yield (.string target.text)

end Eval

/-- Evaluates an expression in at most `fuel` steps. -/
def evaluate (g : Setting) : Nat → Expr → Eval Value
  | 0, _ => Eval.stop .exhausted
  | fuel + 1, e => Eval.layer (evaluate g fuel) g fuel e

/-- Performs a statement in at most `fuel` steps. -/
def execute (g : Setting) (fuel : Nat) (s : Stmt) : Eval Value :=
  Eval.perform (evaluate g fuel) g s.action

end ScriptLang
