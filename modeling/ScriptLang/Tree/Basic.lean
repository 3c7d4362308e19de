import ScriptLang.Source.Position
import ScriptLang.Tree.Operator

/-!
# Statements and expressions

The trees that a script is parsed into.  Nearly everything is an expression: blocks,
conditionals, loops and functions have values.  A statement declares, leaves a loop
or function, or evaluates an expression; whether a semicolon ended it is kept,
because a block takes its value from the statement without one.
-/

namespace ScriptLang

/-- The types that casts and type tests can name. -/
inductive TypeName
  | int | float | string | bool | null | function
deriving DecidableEq, Repr

/-- How a type is written. -/
def TypeName.text : TypeName → String
  | .int => "int"
  | .float => "float"
  | .string => "string"
  | .bool => "bool"
  | .null => "null"
  | .function => "function"

/-- Values written in the text. -/
inductive Literal
  | null
  | bool (value : Bool)
  | integer (value : UInt64)
  | float (value : Float)
  | string (text : String)
deriving DecidableEq, Repr

/-- A parameter of a function; `nonNull` parameters refuse null. -/
structure Parameter where
  name : String
  const : Bool
  nonNull : Bool
  span : Span
deriving DecidableEq, Repr

mutual

/-- An expression and where it stands. -/
structure Expr where
  node : Node
  span : Span

/-- The shapes of expressions.  A block has the value of its last statement without
a semicolon; the range of a loop excludes its end; a branch of a `match` without a
pattern is the default one. -/
inductive Node where
  | block (statements : List Stmt)
  | conditional (branches : List Alternative) (otherwise : Option Expr)
  | forLoop (counter : Option String) (start : Option Expr) (stop : Expr)
      (step : Option Expr)
      (body : Expr)
  | whileLoop (condition body : Expr)
  | function (definition : FunctionDef)
  | matching (argument : Expr) (branches : List Branch)
  | grouping (inner : Expr)
  | binary (operator : Operator) (left right : Expr)
  | unary (operator : Operator) (operand : Expr)
  | call (callee : Expr) (arguments : List Expr)
  | name (text : String)
  | literal (value : Literal)
  | cast (target : TypeName) (operand : Expr)
  | type (target : TypeName)

/-- A condition and what is evaluated when it holds. -/
structure Alternative where
  condition : Expr
  body : Expr

/-- The parameters and the body of a function. -/
structure FunctionDef where
  parameters : List Parameter
  body : Expr

/-- A pattern and what is evaluated when it matches. -/
structure Branch where
  pattern : Option Expr
  consequent : Expr
  span : Span

/-- One name of a declaration, with its first value if one is given. -/
structure Binding where
  name : String
  const : Bool
  value : Option Expr
  span : Span

/-- The shapes of statements. -/
inductive Action where
  | pull (path : List String)
  | declare (bindings : List Binding)
  | break_
  | breakIf (condition : Expr)
  | return_ (value : Option Expr)
  | evaluate (expression : Expr)

/-- A statement, whether a semicolon ended it, and where it stands. -/
structure Stmt where
  action : Action
  terminated : Bool
  span : Span

end

namespace Expr

/-- A binary operation covers both of its operands. -/
def binary (left : Expr) (operator : Operator) (right : Expr) : Expr :=
  ⟨.binary operator left right, left.span.join right.span⟩

/-- A unary operation covers its operator and its operand. -/
def unary (operator : Operator) (sign : Span) (operand : Expr) : Expr :=
  ⟨.unary operator operand, sign.join operand.span⟩

end Expr

/-- Whether evaluating an expression for its own sake does nothing. -/
def Node.isInert : Node → Bool
  | .literal _ | .name _ | .type _ => true
  | .grouping ⟨inner, _⟩ => inner.isInert
  | _ => false

end ScriptLang
