import ScriptLang.Eval.Evaluate
import ScriptLang.Parse.Grammar

/-!
# Running scripts

An `Interpreter` runs statements one at a time.  A statement that fails leaves a
fault behind, reported at its start, and the next one runs as if nothing had
happened: the stack is cut back to its depth before the statement, and no call is in
progress.

`Interpreter.runScript` runs the statements of a script that parsed without errors,
and counts the others, until the text ends or the quit flag is set.
-/

namespace ScriptLang

/-- Limits of a run. -/
structure Limits where
  maxCallDepth : Nat := 128
deriving DecidableEq, Repr

namespace Limits

/-- The longest content of a token unless told otherwise. -/
def defaultLexemeLength : Nat := 4096

/-- Bytes of stack that one call of a script may need. -/
def stackPerCall : Nat := 64 * 1024

/-- The least stack for a run, in bytes. -/
def leastStack : Nat := 8 * 1024 * 1024

/-- The largest number of bytes that can be asked for. -/
def largestStack : Nat := 0xffffffffffffffff

/-- The stack, in bytes, that lets a run reach its limit on calls. -/
def stackSize (l : Limits) : Nat :=
  max leastStack
    (min largestStack (min largestStack (l.maxCallDepth + 1) * stackPerCall))

end Limits

/-- A setting, a machine in it, and the faults reported so far. -/
structure Interpreter where
  setting : Setting
  machine : Machine
  faults : Array (Located Fault)

/-- How the run of one statement ends. -/
inductive RunResult
  | value (value : Value)
  | failed (fault : Located Fault)
  | exhausted

/-- What became of the statements of a script: run to a value, failed while running,
or never run because they did not parse cleanly. -/
structure Stats where
  run : Nat := 0
  failed : Nat := 0
  skipped : Nat := 0
deriving DecidableEq, Repr

namespace Interpreter

/-- An interpreter with nothing defined. -/
def new (limits : Limits) : Interpreter :=
  let (stack, store) := Store.empty.root
  { setting := ⟨limits.maxCallDepth, #[], []⟩
    machine := ⟨store, stack, 0, 0, {}⟩
    faults := #[] }

/-- Whether the run has been asked to stop. -/
def shouldQuit (i : Interpreter) : Bool := i.machine.console.quit

/-- Gives out an identity that no object has. -/
def fresh (i : Interpreter) : Nat × Interpreter :=
  (i.machine.nextIdentity,
    { i with
      machine := { i.machine with nextIdentity := i.machine.nextIdentity + 1 } })

/-- Binds a constant at the top level. -/
def defineGlobal (name : String) (value : Value) (i : Interpreter) :
    Except Fault Unit × Interpreter :=
  let (result, store) := i.machine.store.declare name value true i.machine.stack
  (result, { i with machine := { i.machine with store } })

/-- Enters a function into the table of the host. -/
def addNative (name : String) (arity : Option Nat) (action : HostAction)
    (i : Interpreter) :
    Native × Interpreter :=
  (⟨i.setting.host.size, name, arity⟩,
    { i with
      setting := { i.setting with host := i.setting.host.push action.procedure } })

/-- Makes a namespace available to `pull`, in place of one of the same name. -/
def addNamespace (space : Namespace) (i : Interpreter) : Interpreter :=
  let others := i.setting.namespaces.filter fun other => other.name ≠ space.name
  { i with setting := { i.setting with namespaces := space :: others } }

/-- The value of a name at the top level. -/
def global? (name : String) (i : Interpreter) : Option Value :=
  (i.machine.store.access name i.machine.stack).toOption

/-- Hands out the faults reported so far and forgets them. -/
def takeFaults (i : Interpreter) : List (Located Fault) × Interpreter :=
  (i.faults.toList, { i with faults := #[] })

/-- The fault that a crash of a host function is reported as. -/
def crashFault : Option String → Fault
  | some words => .internal ("panic: " ++ words)
  | none => .internal "panic"

/-- The machine on which the next statement starts. -/
def reset (depth : Nat) (m : Machine) : Machine :=
  { m with stack := m.stack.truncate depth, callDepth := 0 }

/-- Runs one statement. -/
def run (fuel : Nat) (s : Stmt) (i : Interpreter) : RunResult × Interpreter :=
  let depth := i.machine.stack.length
  let (outcome, m) := execute i.setting fuel s i.machine
  let i := { i with machine := reset depth m }
  let fail (fault : Fault) : RunResult × Interpreter :=
    let located : Located Fault := ⟨fault, s.span.start⟩
    (.failed located, { i with faults := i.faults.push located })
  match outcome with
  | .value v | .returning v => (.value v, i)
  | .breaking => (.value .null, i)
  | .failed fault => fail fault
  | .crashed words => fail (crashFault words)
  | .exhausted => (.exhausted, i)

/-- Calls a value with arguments. -/
def call (fuel : Nat) (callee : Value) (arguments : List Value) (i : Interpreter) :
    Outcome Value × Interpreter :=
  let (outcome, machine) :=
    Eval.call (evaluate i.setting fuel) i.setting callee arguments i.machine
  (outcome, { i with machine })

/-- A script that is being run. -/
structure Progress (σ : Type) where
  interpreter : Interpreter
  parser : σ
  stats : Stats := {}
  /-- Whether no statement needed more steps than allowed. -/
  complete : Bool := true

variable {σ : Type} [TokenSource σ]

/-- Runs at most `count` statements of a script. -/
def runUpTo (fuel : Nat) : Nat → Progress σ → Progress σ
  | 0, p => p
  | count + 1, p =>
    if p.interpreter.shouldQuit then p
    else
      match TokenSource.next? p.parser with
      | (none, parser) => { p with parser }
      | (some ⟨some statement, true⟩, parser) =>
        match p.interpreter.run fuel statement with
        | (.value _, interpreter) =>
          runUpTo fuel count
            { p with
              interpreter, parser
              stats := { p.stats with run := p.stats.run + 1 } }
        | (.failed _, interpreter) =>
          runUpTo fuel count
            { p with
              interpreter, parser
              stats := { p.stats with failed := p.stats.failed + 1 } }
        | (.exhausted, interpreter) =>
            { p with interpreter, parser, complete := false }
      | (some _, parser) =>
        runUpTo fuel count
          { p with
            parser
            stats := { p.stats with skipped := p.stats.skipped + 1 } }

/-- Runs a script to its end, or until the quit flag is set. -/
def runScript (fuel : Nat) (parser : σ) (i : Interpreter) : Progress σ :=
  runUpTo fuel (TokenSource.remaining parser + 1) { interpreter := i, parser }

end Interpreter

end ScriptLang
