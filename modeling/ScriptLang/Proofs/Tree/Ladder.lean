import ScriptLang.Tree.Basic

/-!
# The ladder of operators

Every shape of expression stands on a rung.  Rungs 3 to 16 are the fourteen levels
of the ladder, from the loosest to the tightest:

* 3: assignments; 4: `??`; 5: `?>`; 6: `||`; 7: `&&`; 8: `is` and `is not`; 9:
  comparisons; 10: `..`; 11: `+ -`; 12: `* / %`;
* 13: the signs before an operand; 14: `^`; 15: calls and members; 16: everything
  else.

The rungs below belong to patterns: 0 is `or`, 1 is `and`, and 2 is a comparison or
type test of the matched value.

`Expr.Respects` says of all operators in a tree, however deep, that their operands
stand high enough.
-/

namespace ScriptLang

/-- The rung of the operations that an operator makes. -/
def Operator.rung : Operator → Nat
  | .matchOr => 0
  | .matchAnd => 1
  | .matchLess | .matchLessEqual | .matchGreater | .matchGreaterEqual
  | .matchEqual | .matchNotEqual
  | .matchIs | .matchIsNot => 2
  | .assign | .addAssign | .subtractAssign | .multiplyAssign | .divideAssign
  | .remainderAssign => 3
  | .nullCoalescing => 4
  | .nullsafePipe => 5
  | .or => 6
  | .and => 7
  | .is | .isNot => 8
  | .less | .lessEqual | .greater | .greaterEqual | .equal | .notEqual => 9
  | .concatenate => 10
  | .add | .subtract => 11
  | .multiply | .divide | .remainder => 12
  | .plus | .negate | .not => 13
  | .exponent => 14
  | .access => 15

/-- The rung of an expression. -/
def Expr.rung (e : Expr) : Nat :=
  match e.node with
  | .binary operator _ _ | .unary operator _ => operator.rung
  | .call _ _ => 15
  | _ => 16

/-- What a binary operator asks of its operands.  Most operators are left
associative: the left operand may stand on the operator's own rung, the right one
stands higher. -/
def Operator.Joins (o : Operator) (left right : Expr) : Prop :=
  match o with
  | .assign | .addAssign | .subtractAssign | .multiplyAssign | .divideAssign
  | .remainderAssign =>
    (∃ name, left.node = .name name) ∧ 3 ≤ right.rung
  | .is | .isNot => 8 ≤ left.rung ∧ ∃ target, right.node = .type target
  | .exponent => 15 ≤ left.rung ∧ 13 ≤ right.rung
  | .access => 15 ≤ left.rung ∧ ∃ name, right.node = .name name
  | o => o.rung ≤ left.rung ∧ o.rung < right.rung

/-- What a unary operator asks of its operand.  A sign may stand before other signs;
the comparisons of a pattern take what comparisons take, and its type tests take a
type. -/
def Operator.Governs (o : Operator) (operand : Expr) : Prop :=
  match o with
  | .plus | .negate | .not => 13 ≤ operand.rung
  | .matchIs | .matchIsNot => ∃ target, operand.node = .type target
  | _ => 10 ≤ operand.rung

/-- Whether an operator asks for nothing but the rungs of its operands. -/
def Operator.isLeftAssociative : Operator → Bool
  | .matchOr | .matchAnd | .nullCoalescing | .nullsafePipe | .or | .and
  | .less | .lessEqual | .greater | .greaterEqual | .equal | .notEqual
  | .concatenate | .add | .subtract | .multiply | .divide | .remainder => true
  | _ => false

theorem Operator.joins_iff {o : Operator} (h : o.isLeftAssociative = true)
    (left right : Expr) :
    o.Joins left right ↔ o.rung ≤ left.rung ∧ o.rung < right.rung := by
  cases o <;> first | exact Iff.rfl | cases h

mutual

/-- Every operator in an expression has operands that it can take. -/
inductive Expr.Respects : Expr → Prop
  | block {statements : List Stmt} {span : Span} :
      (∀ s ∈ statements, Stmt.Respects s) → Expr.Respects ⟨.block statements, span⟩
  | conditional {branches : List Alternative} {otherwise : Option Expr}
      {span : Span} :
      (∀ a ∈ branches, Expr.Respects a.condition) →
        (∀ a ∈ branches, Expr.Respects a.body) →
      (∀ e ∈ otherwise, Expr.Respects e) →
        Expr.Respects ⟨.conditional branches otherwise, span⟩
  | forLoop {counter : Option String} {start : Option Expr} {stop : Expr}
      {step : Option Expr}
      {body : Expr} {span : Span} :
      (∀ e ∈ start, Expr.Respects e) → Expr.Respects stop →
        (∀ e ∈ step, Expr.Respects e) →
      Expr.Respects body → Expr.Respects
        ⟨.forLoop counter start stop step body, span⟩
  | whileLoop {condition body : Expr} {span : Span} :
      Expr.Respects condition → Expr.Respects body →
        Expr.Respects ⟨.whileLoop condition body, span⟩
  | function {parameters : List Parameter} {body : Expr} {span : Span} :
      Expr.Respects body → Expr.Respects ⟨.function ⟨parameters, body⟩, span⟩
  | matching {argument : Expr} {branches : List Branch} {span : Span} :
      Expr.Respects argument → (∀ b ∈ branches, ∀ e ∈ b.pattern, Expr.Respects e) →
      (∀ b ∈ branches, Expr.Respects b.consequent) →
        Expr.Respects ⟨.matching argument branches, span⟩
  | grouping {inner : Expr} {span : Span} :
      Expr.Respects inner → Expr.Respects ⟨.grouping inner, span⟩
  | binary {operator : Operator} {left right : Expr} {span : Span} :
      operator.Joins left right → Expr.Respects left → Expr.Respects right →
      Expr.Respects ⟨.binary operator left right, span⟩
  | unary {operator : Operator} {operand : Expr} {span : Span} :
      operator.Governs operand → Expr.Respects operand →
        Expr.Respects ⟨.unary operator operand, span⟩
  | call {callee : Expr} {arguments : List Expr} {span : Span} :
      15 ≤ callee.rung → Expr.Respects callee → (∀ e ∈ arguments, Expr.Respects e) →
      Expr.Respects ⟨.call callee arguments, span⟩
  | name {text : String} {span : Span} : Expr.Respects ⟨.name text, span⟩
  | literal {value : Literal} {span : Span} : Expr.Respects ⟨.literal value, span⟩
  | cast {target : TypeName} {operand : Expr} {span : Span} :
      Expr.Respects operand → Expr.Respects ⟨.cast target operand, span⟩
  | type {target : TypeName} {span : Span} : Expr.Respects ⟨.type target, span⟩

/-- Every operator in a statement has operands that it can take. -/
inductive Stmt.Respects : Stmt → Prop
  | pull {path : List String} {terminated : Bool} {span : Span} :
      Stmt.Respects ⟨.pull path, terminated, span⟩
  | declare {bindings : List Binding} {terminated : Bool} {span : Span} :
      (∀ b ∈ bindings, ∀ e ∈ b.value, Expr.Respects e) →
      Stmt.Respects ⟨.declare bindings, terminated, span⟩
  | break_ {terminated : Bool} {span : Span} :
      Stmt.Respects ⟨.break_, terminated, span⟩
  | breakIf {condition : Expr} {terminated : Bool} {span : Span} :
      Expr.Respects condition → Stmt.Respects ⟨.breakIf condition, terminated, span⟩
  | return_ {value : Option Expr} {terminated : Bool} {span : Span} :
      (∀ e ∈ value, Expr.Respects e) →
        Stmt.Respects ⟨.return_ value, terminated, span⟩
  | evaluate {e : Expr} {terminated : Bool} {span : Span} :
      Expr.Respects e → Stmt.Respects ⟨.evaluate e, terminated, span⟩

end

end ScriptLang
