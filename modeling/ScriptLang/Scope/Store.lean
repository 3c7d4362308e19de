import ScriptLang.Fault
import ScriptLang.Value.Basic

/-!
# Scopes

A `Store` holds the variables and the frames of a run; both are named by their index
and never removed.  A frame maps names to variables.  A `Stack` is a chain of
frames, innermost first, that says which names are visible.  Two stacks may share
frames, and two frames may share variables:

* a copy of a stack shares its frames, so it sees names that are declared in them
  later;
* `settle` replaces the innermost frame of one stack by a copy of it with the same
  variables, so that names declared afterwards are hidden from the copies taken
  before, while assignments are still seen.

Every operation that can be refused returns the store unchanged when it is.
-/

namespace ScriptLang

/-- What stops at a frame: a loop stops `break`, a function stops `break` and
`return`. -/
inductive FrameKind
  | block | loop | function
deriving DecidableEq, Repr

/-- A value and whether it may be replaced. -/
structure Variable where
  value : Value
  const : Bool

/-- The names of one scope, each with the index of its variable. -/
structure Frame where
  kind : FrameKind
  names : List (String × Nat)
deriving DecidableEq, Repr

namespace Frame

/-- The variable of a name. -/
def find? (f : Frame) (name : String) : Option Nat := f.names.lookup name

/-- Gives a name a variable, in place of the one it may have had. -/
def bind (f : Frame) (name : String) (cell : Nat) : Frame :=
  { f with names := (name, cell) :: f.names.filter fun entry => entry.1 ≠ name }

end Frame

/-- A chain of frames, innermost first. -/
abbrev Stack := List Nat

/-- The outermost `depth` frames of a stack. -/
def Stack.truncate (depth : Nat) (stack : Stack) : Stack :=
  stack.drop (stack.length - depth)

/-- All variables and frames, and the frames that `release` has not emptied yet. -/
structure Store where
  cells : Array Variable
  frames : Array Frame
  live : List Nat

namespace Store

/-- The store without variables and frames. -/
def empty : Store := ⟨#[], #[], []⟩

/-- Adds a frame and gives its index. -/
def addFrame (frame : Frame) (s : Store) : Nat × Store :=
  let index := s.frames.size
  (index, { s with frames := s.frames.push frame, live := index :: s.live })

/-- A stack of one empty frame. -/
def root (s : Store) : Stack × Store :=
  let (index, s) := s.addFrame ⟨.block, []⟩
  ([index], s)

/-- Adds an empty frame inside a stack. -/
def push (kind : FrameKind) (stack : Stack) (s : Store) : Stack × Store :=
  let (index, s) := s.addFrame ⟨kind, []⟩
  (index :: stack, s)

/-- The names of a frame; an index that was never given out has none. -/
def frame (s : Store) (index : Nat) : Frame := (s.frames[index]?).getD ⟨.block, []⟩

/-- The variable that a name means in a stack. -/
def resolve? (s : Store) (name : String) : Stack → Option Nat
  | [] => none
  | index :: outer =>
    match (s.frame index).find? name with
    | some cell => some cell
    | none => s.resolve? name outer

/-- The fault of a stack without frames. -/
def emptyStack : Fault := .internal "environment stack is empty"

/-- Binds a name in a frame to a new variable. -/
def bindNew (index : Nat) (name : String) (value : Value) (const : Bool)
    (s : Store) : Store :=
  let cell := s.cells.size
  { s with
    cells := s.cells.push ⟨value, const⟩
    frames := s.frames.modify index fun frame => frame.bind name cell }

/-- Declares a new name in the innermost frame. -/
def declare (name : String) (value : Value) (const : Bool) (stack : Stack)
    (s : Store) :
    Except Fault Unit × Store :=
  match stack with
  | [] => (.error emptyStack, s)
  | index :: _ =>
    if ((s.frame index).find? name).isSome then (.error (.alreadyDefined name), s)
    else (.ok (), s.bindNew index name value const)

/-- Declares a name in the innermost frame, in place of one that may be there. -/
def override (name : String) (value : Value) (const : Bool) (stack : Stack)
    (s : Store) :
    Except Fault Unit × Store :=
  match stack with
  | [] => (.error emptyStack, s)
  | index :: _ => (.ok (), s.bindNew index name value const)

/-- The value of a variable; an index that was never given out holds null. -/
def cell (s : Store) (index : Nat) : Variable :=
  (s.cells[index]?).getD ⟨.null, true⟩

/-- The value of a name. -/
def access (name : String) (stack : Stack) (s : Store) : Except Fault Value :=
  match s.resolve? name stack with
  | some index => .ok (s.cell index).value
  | none => .error (.undefinedVariable name)

/-- Replaces the value of a name that is no constant. -/
def assign (name : String) (value : Value) (stack : Stack) (s : Store) :
    Except Fault Unit × Store :=
  match s.resolve? name stack with
  | none => (.error (.undefinedVariable name), s)
  | some index =>
    if (s.cell index).const then (.error (.assignmentToConst name), s)
    else
      (.ok (), { s with cells := s.cells.modify index fun v => { v with value } })

/-- Replaces the innermost frame by a copy that shares its variables. -/
def settle (stack : Stack) (s : Store) : Except Fault Stack × Store :=
  match stack with
  | [] => (.error emptyStack, s)
  | index :: outer =>
    let (copy, s) := s.addFrame (s.frame index)
    (.ok (copy :: outer), s)

/-- Empties every frame that was added since the last release. -/
def release (s : Store) : Store :=
  { s with
    frames :=
      s.live.foldl
        (fun frames index => frames.modify index fun f => { f with names := [] })
        s.frames
    live := [] }

/-- Whether `break` has a loop to leave: a loop frame with no function frame inside
it. -/
def inLoop (s : Store) : Stack → Bool
  | [] => false
  | index :: outer =>
    match (s.frame index).kind with
    | .loop => true
    | .function => false
    | .block => s.inLoop outer

/-- Whether `return` has a function to leave. -/
def inFunction (s : Store) (stack : Stack) : Bool :=
  stack.any fun index => (s.frame index).kind = .function

/-- Checks that `break` has a loop to leave. -/
def checkBreak (stack : Stack) (s : Store) : Except Fault Unit :=
  if s.inLoop stack then .ok () else .error .breakOutsideLoop

/-- Checks that `return` has a function to leave. -/
def checkReturn (stack : Stack) (s : Store) : Except Fault Unit :=
  if s.inFunction stack then .ok () else .error .returnOutsideFunction

end Store

end ScriptLang
