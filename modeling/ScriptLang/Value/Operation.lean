import ScriptLang.Character.Classes
import ScriptLang.Fault
import ScriptLang.Number.Arithmetic
import ScriptLang.Number.Reading
import ScriptLang.Value.Basic

/-!
# Operations on values

Arithmetic on two integers wraps around at 64 bits; as soon as one operand is a
floating-point number both are taken as such.  A comparison of values that have no
order between them is null, and only equality with null is always decided.  Casts
that make no sense fail; texts that do not read as the wanted value become null.
-/

namespace ScriptLang.Value

/-- The largest exponent that an integer power looks at; a larger one is taken for
this one. -/
def exponentCap : Nat := 0xffffffff

/-- The fault of an operator that arithmetic does not know. -/
def notArithmetic (o : Operator) : Fault :=
  .internal ("`" ++ o.text ++ "` is not arithmetic")

/-- Arithmetic on integers.  A negative exponent gives a floating-point number. -/
def intArithmetic (o : Operator) (a b : Int64) : Except Fault Value :=
  match o with
  | .add => .ok (.int (a + b))
  | .subtract => .ok (.int (a - b))
  | .multiply => .ok (.int (a * b))
  | .divide => if b = 0 then .error .zeroDivision else .ok (.int (a / b))
  | .remainder => if b = 0 then .error .zeroDivision else .ok (.int (a % b))
  | .exponent =>
    if b < 0 then .ok (.float ((Number.ofInt64 a).pow (Number.ofInt64 b)))
    else .ok (.int (Number.wrappingPower 1 a (min b.toInt.toNat exponentCap)))
  | o => .error (notArithmetic o)

/-- Arithmetic on floating-point numbers. -/
def floatArithmetic (o : Operator) (a b : Float) : Except Fault Value :=
  match o with
  | .add => .ok (.float (a + b))
  | .subtract => .ok (.float (a - b))
  | .multiply => .ok (.float (a * b))
  | .divide => .ok (.float (a / b))
  | .remainder => .ok (.float (Number.remainder a b))
  | .exponent => .ok (.float (a.pow b))
  | o => .error (notArithmetic o)

/-- Arithmetic on values. -/
def arithmetic (o : Operator) (left right : Value) : Except Fault Value :=
  match left, right with
  | .int a, .int b => intArithmetic o a b
  | left, right =>
    match left.float?, right.float? with
    | some a, some b => floatArithmetic o a b
    | _, _ => .error (.unsupportedOperands o.text left.typeText right.typeText)

/-- Two strings are joined; anything else gives null. -/
def concatenate : Value → Value → Value
  | .string a, .string b => .string (a ++ b)
  | _, _ => .null

/-- How two values stand to each other. -/
inductive Standing
  /-- They have an order, or none because one of them is no number. -/
  | ordered (order : Option Ordering)
  /-- They can only be told apart. -/
  | distinct
  /-- They cannot be compared. -/
  | foreign
deriving DecidableEq, Repr

/-- How two values stand to each other: numbers and strings are ordered, other
values of one type can be told apart. -/
def standing (left right : Value) : Standing :=
  match left, right with
  | .int a, .int b => .ordered (some (Ord.compare a b))
  | .string a, .string b => .ordered (some (Ord.compare a b))
  | left, right =>
    match left.float?, right.float? with
    | some a, some b => .ordered (Number.order? a b)
    | _, _ => if left.typeText = right.typeText then .distinct else .foreign

/-- Whether an order satisfies a comparison. -/
def satisfies : Operator → Ordering → Bool
  | .less, order => order.isLT
  | .lessEqual, order => order.isLE
  | .greater, order => order.isGT
  | .greaterEqual, order => order.isGE
  | .equal, order => order.isEq
  | .notEqual, order => order.isNe
  | _, _ => false

/-- Compares two values.  Equality with null is always decided; otherwise a
comparison that has no answer is null. -/
def compare (o : Operator) (left right : Value) : Value :=
  let equality := o = .equal || o = .notEqual
  if equality && (left.isNull || right.isNull) then
    .bool ((left.isNull && right.isNull) == decide (o = .equal))
  else
    match standing left right with
    | .ordered (some order) => .bool (satisfies o order)
    | .ordered none => .bool (decide (o = .notEqual))
    | .distinct =>
        if equality then .bool (left.same right == decide (o = .equal)) else .null
    | .foreign => .null

/-- Applies a sign. -/
def applySign (o : Operator) (operand : Value) : Except Fault Value :=
  match o, operand with
  | .plus, .int i => .ok (.int i)
  | .plus, .float x => .ok (.float x)
  | .negate, .int i => .ok (.int (-i))
  | .negate, .float x => .ok (.float (-x))
  | .not, .bool b => .ok (.bool (!b))
  | .not, other => .error (.expectedBoolean other.typeText)
  | o, other => .error (.unsupportedOperand o.text other.typeText)

/-- Whether a value has a type. -/
def hasType (v : Value) (target : TypeName) : Bool := v.type? = some target

/-- A read value, or null. -/
def orNull (f : α → Value) : Option α → Value
  | some a => f a
  | none => .null

/-- Converts a value.  Null stays null, and functions can only be cast to
functions. -/
def cast (v : Value) (target : TypeName) : Except Fault Value :=
  let invalid : Except Fault Value := .error (.invalidCast v.typeText target.text)
  match v, target with
  | .null, _ => .ok .null
  | .closure f, .function => .ok (.closure f)
  | .native f, .function => .ok (.native f)
  | .closure _, _ | .native _, _ | .namespace_ _, _ => invalid
  | _, .function | _, .null => invalid
  | v, .string => .ok (.string v.text)
  | .int i, .int => .ok (.int i)
  | .float x, .int => .ok (.int x.toInt64)
  | .bool b, .int => .ok (.int (if b then 1 else 0))
  | .string text, .int =>
      .ok (orNull .int (Number.integer? (Character.trim text.toList)))
  | .int i, .float => .ok (.float (Number.ofInt64 i))
  | .float x, .float => .ok (.float x)
  | .bool b, .float => .ok (.float (if b then 1 else 0))
  | .string text, .float =>
      .ok (orNull .float (Number.float? (Character.trim text.toList)))
  | .int i, .bool => .ok (.bool (i != 0))
  | .float x, .bool => .ok (.bool (x != 0))
  | .bool b, .bool => .ok (.bool b)
  | .string text, .bool =>
    .ok
      (if text = "true" then .bool true
      else if text = "false" then .bool false
      else .null)

/-- The member of a namespace. -/
def member (target : Value) (name : String) : Except Fault Value :=
  match target with
  | .namespace_ space =>
    match space.member? name with
    | some value => .ok value
    | none => .error (.unknownMember space.name name)
  | other => .error (.invalidAccess other.typeText)

/-- Applies an operator whose two operands are both evaluated first. -/
def applyBinary (o : Operator) (left right : Value) : Except Fault Value :=
  match o with
  | .add | .subtract | .multiply | .divide | .remainder | .exponent =>
      arithmetic o left right
  | .concatenate => .ok (concatenate left right)
  | .less | .lessEqual | .greater | .greaterEqual | .equal | .notEqual =>
      .ok (compare o left right)
  | o => .error (.internal ("`" ++ o.text ++ "` is not a binary operator"))

end ScriptLang.Value
