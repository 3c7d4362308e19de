import ScriptLang.Interpreter

/-!
# The functions of the host

A `Registry` lists the functions and namespaces that are installed into an
interpreter before a run.  The standard one has `print`, `quit` and `typeof`, and
the namespace `math`.

Functions are installed in the order of their names; the first name that is already
taken stops the installation.
-/

namespace ScriptLang

/-- A function of the host before it is entered into an interpreter. -/
structure HostFunction where
  name : String
  arity : Option Nat
  action : HostAction

/-- A namespace before it is entered into an interpreter. -/
structure HostNamespace where
  name : String
  values : List (String × Value)
  functions : List HostFunction

/-- What is installed together. -/
structure Registry where
  functions : List HostFunction
  namespaces : List HostNamespace

namespace Host

/-- Answers without touching the console. -/
def pure (answer : List Value → HostAnswer) : HostAction := fun arguments console =>
  (answer arguments, console)

/-- Writes its arguments, with spaces between them, as a line. -/
def print : HostAction := fun arguments console =>
  match console.refusal with
  | some reason => (.fault (.host "print" reason), console)
  | none =>
    let line := String.intercalate " " (arguments.map Value.text) ++ "\n"
    (.value .null, { console with written := console.written ++ line })

/-- Asks the run to stop. -/
def quit : HostAction :=
  fun _ console => (.value .null, { console with quit := true })

/-- Answers with the help of one of the arguments.  To ask for one that was not
passed is a crash. -/
def argument (index : Nat) (arguments : List Value)
    (answer : Value → HostAnswer) : HostAnswer :=
  match arguments[index]? with
  | some v => answer v
  | none =>
    .crash (some ("index out of bounds: the len is " ++ toString arguments.length ++
      " but the index is " ++ toString index))

/-- The name of its argument's type. -/
def typeOf : HostAction := pure fun arguments =>
  argument 0 arguments fun v => .value (.string v.typeText)

/-- The fault of a function that needs numbers. -/
def notANumber (name : String) (v : Value) : Fault :=
  .host name ("expected a number, got " ++ v.typeText)

/-- A function of one number. -/
def onNumber (name : String) (onInt : Int64 → Int64)
    (onFloat : Float → Float) : HostAction :=
  pure fun arguments =>
    argument 0 arguments fun
      | .int i => .value (.int (onInt i))
      | .float x => .value (.float (onFloat x))
      | other => .fault (notANumber name other)

/-- A function of two numbers, which stays with integers when both are. -/
def onNumbers (name : String) (onInts : Int64 → Int64 → Int64)
    (onFloats : Float → Float → Float) :
    HostAction :=
  pure fun arguments =>
    argument 0 arguments fun first => argument 1 arguments fun second =>
      match first, second with
      | .int a, .int b => .value (.int (onInts a b))
      | _, _ =>
        match first.float?, second.float? with
        | some a, some b => .value (.float (onFloats a b))
        | none, _ => .fault (notANumber name first)
        | _, none => .fault (notANumber name second)

/-- The square root of a number that is not negative. -/
def squareRoot : HostAction := pure fun arguments =>
  argument 0 arguments fun v =>
    match v.float? with
    | none => .fault (notANumber "sqrt" v)
    | some x =>
        if x < 0 then .fault (.host "sqrt" "negative number")
        else .value (.float x.sqrt)

/-- The ratio of a circle's circumference to its diameter. -/
def pi : Float := 3.141592653589793

/-- The namespace of mathematical functions. -/
def math : HostNamespace where
  name := "math"
  values := [("pi", .float pi)]
  functions :=
    [⟨"abs", some 1, onNumber "abs" (fun i => if i < 0 then -i else i) Float.abs⟩,
     ⟨"floor", some 1, onNumber "floor" id Float.floor⟩,
     ⟨"ceil", some 1, onNumber "ceil" id Float.ceil⟩,
     ⟨"sqrt", some 1, squareRoot⟩,
     ⟨"min", some 2,
       onNumbers "min" (fun a b => if b < a then b else a) Number.lesser⟩,
     ⟨"max", some 2,
       onNumbers "max" (fun a b => if a < b then b else a) Number.greater⟩]

end Host

namespace Registry

/-- The standard functions of the host. -/
def standard : Registry where
  functions :=
    [⟨"print", none, Host.print⟩,
     ⟨"quit", some 0, Host.quit⟩,
     ⟨"typeof", some 1, Host.typeOf⟩]
  namespaces := [Host.math]

/-- Adds a function, in place of one of the same name. -/
def register (f : HostFunction) (r : Registry) : Registry :=
  { r with functions := f :: r.functions.filter fun other => other.name ≠ f.name }

/-- The function of a name. -/
def get? (name : String) (r : Registry) : Option HostFunction :=
  r.functions.find? fun f => f.name = name

/-- Whether a name is a function of the host. -/
def isBuiltin (name : String) (r : Registry) : Bool := (r.get? name).isSome

/-- The functions in the order of their names. -/
def sorted (r : Registry) : List HostFunction :=
  r.functions.mergeSort fun a b => a.name ≤ b.name

/-- Enters functions into an interpreter and binds them at the top level, up to the
first name that is taken. -/
def installFunctions :
    List HostFunction → Interpreter → Except Fault Unit × Interpreter
  | [], i => (.ok (), i)
  | f :: rest, i =>
    let (native, i) := i.addNative f.name f.arity f.action
    match i.defineGlobal f.name (.native native) with
    | (.ok (), i) => installFunctions rest i
    | (.error fault, i) => (.error fault, i)

/-- Enters functions into an interpreter as members of a namespace. -/
def addMembers :
    List HostFunction → Interpreter → List (String × Value) × Interpreter
  | [], i => ([], i)
  | f :: rest, i =>
    let (native, i) := i.addNative f.name f.arity f.action
    let (members, i) := addMembers rest i
    ((f.name, .native native) :: members, i)

/-- Makes a namespace of the host available to `pull`. -/
def installNamespace (space : HostNamespace) (i : Interpreter) : Interpreter :=
  let (identity, i) := i.fresh
  let (members, i) := addMembers space.functions i
  i.addNamespace ⟨identity, space.name, space.values ++ members⟩

/-- Installs everything into an interpreter. -/
def install (r : Registry) (i : Interpreter) : Except Fault Unit × Interpreter :=
  match installFunctions r.sorted i with
  | (.ok (), i) =>
      (.ok (), r.namespaces.foldl (fun i space => installNamespace space i) i)
  | (.error fault, i) => (.error fault, i)

end Registry

end ScriptLang
