import ScriptLang.Eval.Range
import ScriptLang.Value.Operation

/-!
# Trees that can be evaluated

Not every tree makes sense to evaluation.  An operator of a pattern stands only in a
pattern, an assignment has a name on its left and a member access one on its right,
a type test has a type on its right, and a `pull` names something.
`Expr.Evaluable`, `Expr.Matchable` and `Stmt.Evaluable` say so of expressions, of
patterns and of statements, through everything nested in them.

A fault is a defect if only a tree that makes no sense, or a broken host, can cause
it.  The operations on values never end in a defect when they are given an operator
that they know.
-/

namespace ScriptLang

/-! ## Shapes -/

/-- Whether an operator joins two operands that are both evaluated as
expressions. -/
def Operator.joinsValues : Operator → Bool
  | .add | .subtract | .multiply | .divide | .remainder | .exponent | .concatenate
  | .less | .lessEqual | .greater | .greaterEqual | .equal | .notEqual
  | .and | .or | .nullCoalescing | .nullsafePipe => true
  | _ => false

/-- Whether an operator is a sign before an operand. -/
def Operator.isSign : Operator → Bool
  | .plus | .negate | .not => true
  | _ => false

mutual

/-- An expression that evaluation can make sense of. -/
inductive Expr.Evaluable : Expr → Prop
  | block {statements : List Stmt} {span : Span} :
      (∀ s ∈ statements, Stmt.Evaluable s) →
        Expr.Evaluable ⟨.block statements, span⟩
  | conditional {branches : List Alternative} {otherwise : Option Expr}
      {span : Span} :
      (∀ a ∈ branches, Expr.Evaluable a.condition) →
        (∀ a ∈ branches, Expr.Evaluable a.body) →
      (∀ e ∈ otherwise, Expr.Evaluable e) →
        Expr.Evaluable ⟨.conditional branches otherwise, span⟩
  | forLoop {counter : Option String} {start : Option Expr} {stop : Expr}
      {step : Option Expr}
      {body : Expr} {span : Span} :
      (∀ e ∈ start, Expr.Evaluable e) → Expr.Evaluable stop →
        (∀ e ∈ step, Expr.Evaluable e) →
      Expr.Evaluable body → Expr.Evaluable
        ⟨.forLoop counter start stop step body, span⟩
  | whileLoop {condition body : Expr} {span : Span} :
      Expr.Evaluable condition → Expr.Evaluable body →
        Expr.Evaluable ⟨.whileLoop condition body, span⟩
  | function {definition : FunctionDef} {span : Span} :
      Expr.Evaluable definition.body → Expr.Evaluable ⟨.function definition, span⟩
  | matching {argument : Expr} {branches : List Branch} {span : Span} :
      Expr.Evaluable argument → (∀ b ∈ branches, ∀ e ∈ b.pattern,
        Expr.Matchable e) →
      (∀ b ∈ branches, Expr.Evaluable b.consequent) →
        Expr.Evaluable ⟨.matching argument branches, span⟩
  | grouping {inner : Expr} {span : Span} :
      Expr.Evaluable inner → Expr.Evaluable ⟨.grouping inner, span⟩
  | assignment {operator : Operator} {target e : Expr} {name : String}
      {span : Span} :
      operator.isAssignment = true → target.node = .name name → Expr.Evaluable e →
      Expr.Evaluable ⟨.binary operator target e, span⟩
  | typeTest {operator : Operator} {left right : Expr} {target : TypeName}
      {span : Span} :
      operator = .is ∨ operator = .isNot → Expr.Evaluable left →
      right.node = .type target →
      Expr.Evaluable ⟨.binary operator left right, span⟩
  | access {left right : Expr} {name : String} {span : Span} :
      Expr.Evaluable left → right.node = .name name →
        Expr.Evaluable ⟨.binary .access left right, span⟩
  | binary {operator : Operator} {left right : Expr} {span : Span} :
      operator.joinsValues = true → Expr.Evaluable left → Expr.Evaluable right →
      Expr.Evaluable ⟨.binary operator left right, span⟩
  | unary {operator : Operator} {operand : Expr} {span : Span} :
      operator.isSign = true → Expr.Evaluable operand →
        Expr.Evaluable ⟨.unary operator operand, span⟩
  | call {callee : Expr} {arguments : List Expr} {span : Span} :
      Expr.Evaluable callee → (∀ e ∈ arguments, Expr.Evaluable e) →
      Expr.Evaluable ⟨.call callee arguments, span⟩
  | name {text : String} {span : Span} : Expr.Evaluable ⟨.name text, span⟩
  | literal {value : Literal} {span : Span} : Expr.Evaluable ⟨.literal value, span⟩
  | cast {target : TypeName} {operand : Expr} {span : Span} :
      Expr.Evaluable operand → Expr.Evaluable ⟨.cast target operand, span⟩
  | type {target : TypeName} {span : Span} : Expr.Evaluable ⟨.type target, span⟩

/-- A pattern that a value can be matched with. -/
inductive Expr.Matchable : Expr → Prop
  | grouping {inner : Expr} {span : Span} :
      Expr.Matchable inner → Expr.Matchable ⟨.grouping inner, span⟩
  | binary {operator : Operator} {left right : Expr} {span : Span} :
      operator = .matchAnd ∨ operator = .matchOr → Expr.Matchable left →
      Expr.Matchable right →
      Expr.Matchable ⟨.binary operator left right, span⟩
  | typeTest {operator : Operator} {operand : Expr} {target : TypeName}
      {span : Span} :
      operator = .matchIs ∨ operator = .matchIsNot → operand.node = .type target →
      Expr.Matchable ⟨.unary operator operand, span⟩
  | comparison {operator comparison : Operator} {operand : Expr} {span : Span} :
      operator.matchComparison? = some comparison → Expr.Evaluable operand →
      Expr.Matchable ⟨.unary operator operand, span⟩
  | expression {e : Expr} : Expr.Evaluable e → Expr.Matchable e

/-- A statement that can be performed. -/
inductive Stmt.Evaluable : Stmt → Prop
  | pull {path : List String} {terminated : Bool} {span : Span} :
      path ≠ [] → Stmt.Evaluable ⟨.pull path, terminated, span⟩
  | declare {bindings : List Binding} {terminated : Bool} {span : Span} :
      (∀ b ∈ bindings, ∀ e ∈ b.value, Expr.Evaluable e) →
      Stmt.Evaluable ⟨.declare bindings, terminated, span⟩
  | break_ {terminated : Bool} {span : Span} :
      Stmt.Evaluable ⟨.break_, terminated, span⟩
  | breakIf {condition : Expr} {terminated : Bool} {span : Span} :
      Expr.Evaluable condition →
        Stmt.Evaluable ⟨.breakIf condition, terminated, span⟩
  | return_ {value : Option Expr} {terminated : Bool} {span : Span} :
      (∀ e ∈ value, Expr.Evaluable e) →
        Stmt.Evaluable ⟨.return_ value, terminated, span⟩
  | evaluate {e : Expr} {terminated : Bool} {span : Span} :
      Expr.Evaluable e → Stmt.Evaluable ⟨.evaluate e, terminated, span⟩

end

/-! ## Defects -/

/-- Whether a fault shows that a tree makes no sense, or that the host is broken. -/
def Fault.isDefect : Fault → Bool
  | .internal _ | .invalidTarget => true
  | _ => false

/-- An operation on values that does not end in a defect. -/
def Healthy (result : Except Fault α) : Prop :=
  ∀ fault, result = .error fault → fault.isDefect = false

namespace Value

/-- Whether an operator computes with numbers. -/
def isArithmetic : Operator → Bool
  | .add | .subtract | .multiply | .divide | .remainder | .exponent => true
  | _ => false

theorem intArithmetic_healthy {o : Operator} (ho : isArithmetic o = true)
    (a b : Int64) :
    Healthy (intArithmetic o a b) := by
  intro fault h
  cases o with
  | add | subtract | multiply => cases h
  | divide | remainder =>
      dsimp only [intArithmetic] at h
      split at h <;> cases h
      rfl
  | exponent =>
      dsimp only [intArithmetic] at h
      split at h <;> cases h
  | _ => cases ho

theorem floatArithmetic_healthy {o : Operator} (ho : isArithmetic o = true)
    (a b : Float) :
    Healthy (floatArithmetic o a b) := by
  intro fault h
  cases o with
  | add | subtract | multiply | divide | remainder | exponent => cases h
  | _ => cases ho

theorem arithmetic_healthy {o : Operator} (ho : isArithmetic o = true)
    (a b : Value) :
    Healthy (a.arithmetic o b) := by
  intro fault h
  unfold arithmetic at h
  split at h
  · exact intArithmetic_healthy ho _ _ fault h
  · split at h
    · exact floatArithmetic_healthy ho _ _ fault h
    · cases h
      rfl

theorem applyBinary_healthy {o : Operator} (ho : o.joinsValues = true)
    (hstrict : o ≠ .and ∧ o ≠ .or ∧ o ≠ .nullCoalescing ∧ o ≠ .nullsafePipe)
    (a b : Value) :
    Healthy (a.applyBinary o b) := by
  intro fault h
  cases o with
  | add | subtract | multiply | divide | remainder | exponent =>
      exact arithmetic_healthy rfl a b fault h
  | concatenate | less | lessEqual | greater | greaterEqual | equal | notEqual =>
      cases h
  | and | or | nullCoalescing | nullsafePipe => simp at hstrict
  | _ => cases ho

theorem applySign_healthy (o : Operator) (v : Value) : Healthy (v.applySign o) := by
  intro fault h
  unfold applySign at h
  split at h <;> cases h <;> rfl

theorem cast_healthy (v : Value) (target : TypeName) : Healthy (v.cast target) := by
  intro fault h
  unfold cast at h
  dsimp only at h
  split at h <;> cases h <;> rfl

end Value

theorem CounterRange.of_healthy (start stop step : Value) :
    Healthy (CounterRange.of start stop step) := by
  intro fault h
  unfold CounterRange.of at h
  split at h
  · cases h
    rfl
  · cases h
    rfl
  · cases h
    rfl
  · split at h
    all_goals
      split at h <;> cases h
      rfl

end ScriptLang
