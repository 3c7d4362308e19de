import ScriptLang.Number.Arithmetic
import ScriptLang.Number.Text
import ScriptLang.Tree.Basic

/-!
# Values

The values that scripts compute with.  Functions and namespaces are the same when
they are the same object: each carries an identity that is given out once, and
equality looks at nothing else.  A closure names the frames it was formed in; a host
function names its entry in the table of the host.
-/

namespace ScriptLang

/-- A function of a script with the frames that were visible where it was formed,
innermost first. -/
structure Closure where
  identity : Nat
  definition : FunctionDef
  captured : List Nat

/-- A function of the host.  Its entry in the host's table is its identity; without
an arity it takes any number of arguments. -/
structure Native where
  entry : Nat
  name : String
  arity : Option Nat
deriving DecidableEq, Repr

mutual

/-- Values. -/
inductive Value where
  | null
  | int (value : Int64)
  | float (value : Float)
  | bool (value : Bool)
  | string (text : String)
  | closure (function : Closure)
  | native (function : Native)
  | namespace_ (space : Namespace)

/-- A named group of values that a script can pull in. -/
structure Namespace where
  identity : Nat
  name : String
  members : List (String × Value)

end

instance : Inhabited Value := ⟨.null⟩

/-- The value of a member. -/
def Namespace.member? (space : Namespace) (name : String) : Option Value :=
  space.members.lookup name

namespace Value

/-- The type of a value, if it has one that a type test can name. -/
def type? : Value → Option TypeName
  | .null => some .null
  | .int _ => some .int
  | .float _ => some .float
  | .bool _ => some .bool
  | .string _ => some .string
  | .closure _ | .native _ => some .function
  | .namespace_ _ => none

/-- The name of a value's type. -/
def typeText (v : Value) : String :=
  match v.type? with
  | some type => type.text
  | none => "namespace"

/-- Whether a value is null. -/
def isNull : Value → Bool
  | .null => true
  | _ => false

/-- The truth value of a boolean. -/
def bool? : Value → Option Bool
  | .bool b => some b
  | _ => none

/-- A number as a floating-point number. -/
def float? : Value → Option Float
  | .int i => some (Number.ofInt64 i)
  | .float x => some x
  | _ => none

/-- The text of a string. -/
def string? : Value → Option String
  | .string text => some text
  | _ => none

/-- Whether two values are equal: numbers by value, functions and namespaces by
identity. -/
def same : Value → Value → Bool
  | .null, .null => true
  | .int a, .int b => a == b
  | .float a, .float b => a == b
  | .int a, .float b => Number.ofInt64 a == b
  | .float a, .int b => Number.ofInt64 b == a
  | .bool a, .bool b => a == b
  | .string a, .string b => a == b
  | .closure a, .closure b => a.identity == b.identity
  | .native a, .native b => a.entry == b.entry
  | .namespace_ a, .namespace_ b => a.identity == b.identity
  | _, _ => false

/-- How a value is printed. -/
def text : Value → String
  | .null => "null"
  | .int i => toString i.toInt
  | .float x => Number.pointed x
  | .bool b => if b then "true" else "false"
  | .string text => text
  | .closure _ => "<function>"
  | .native f => "<function " ++ f.name ++ ">"
  | .namespace_ space => "<namespace " ++ space.name ++ ">"

/-- The value that a literal stands for; integers wrap around to 64 bits with a
sign. -/
def ofLiteral : Literal → Value
  | .null => .null
  | .bool b => .bool b
  | .integer i => .int i.toInt64
  | .float x => .float x
  | .string text => .string text

end Value

end ScriptLang
