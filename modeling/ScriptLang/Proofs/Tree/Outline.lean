import ScriptLang.Tree.Basic

/-!
# Outlines

An outline is what is left of a tree if only the spans are kept: the span of a node,
and the outlines of the nodes right below it, in the order in which they are
written.  Statements, expressions, the names of a declaration, parameters and the
branches of a `match` have spans, and so are nodes; a condition with its body, and
the definition of a function, have none, and their parts are those of the node they
belong to.
-/

namespace ScriptLang

/-- The span of a node, and the outlines of its parts. -/
inductive Outline where
  | node (span : Span) (parts : List Outline)

def Outline.span : Outline → Span
  | .node span _ => span

/-- A span that another one lies in. -/
def Span.Encloses (outer inner : Span) : Prop :=
  outer.start.order inner.start ≠ .gt ∧ inner.stop.order outer.stop ≠ .gt

instance (outer inner : Span) : Decidable (outer.Encloses inner) :=
  inferInstanceAs (Decidable (_ ∧ _))

/-- A span that ends where another one begins, or before. -/
def Span.Precedes (a b : Span) : Prop := a.stop.order b.start ≠ .gt

instance (a b : Span) : Decidable (a.Precedes b) :=
  inferInstanceAs (Decidable (_ ≠ _))

/-- Everywhere in an outline, a span is not empty and has the parts of its node in
it, one behind the other. -/
inductive Outline.Nests : Outline → Prop
  | node {span : Span} {parts : List Outline}
      (wide : span.start.offset < span.stop.offset)
      (encloses : ∀ o ∈ parts, span.Encloses o.span)
      (ordered : parts.Pairwise fun a b => a.span.Precedes b.span)
      (nests : ∀ o ∈ parts, o.Nests) : Nests (.node span parts)

def Parameter.outline (p : Parameter) : Outline := .node p.span []

mutual

def Expr.outline : Expr → Outline
  | ⟨node, span⟩ => .node span node.parts

/-- The parts of an expression of some shape. -/
def Node.parts : Node → List Outline
  | .block statements => Stmt.outlines statements
  | .conditional branches otherwise =>
      Alternative.parts branches ++ Expr.outline? otherwise
  | .forLoop _ start stop step body =>
    Expr.outline? start ++ [stop.outline] ++ Expr.outline? step ++ [body.outline]
  | .whileLoop condition body => [condition.outline, body.outline]
  | .function definition => definition.parts
  | .matching argument branches => argument.outline :: Branch.outlines branches
  | .grouping inner => [inner.outline]
  | .binary _ left right => [left.outline, right.outline]
  | .unary _ operand => [operand.outline]
  | .call callee arguments => callee.outline :: Expr.outlines arguments
  | .cast _ operand => [operand.outline]
  | .name _ => []
  | .literal _ => []
  | .type _ => []

def Expr.outline? : Option Expr → List Outline
  | some e => [e.outline]
  | none => []

def Expr.outlines : List Expr → List Outline
  | [] => []
  | e :: rest => e.outline :: Expr.outlines rest

/-- The conditions and bodies of alternatives. -/
def Alternative.parts : List Alternative → List Outline
  | [] => []
  | ⟨condition, body⟩ :: rest =>
      condition.outline :: body.outline :: Alternative.parts rest

def FunctionDef.parts : FunctionDef → List Outline
  | ⟨parameters, body⟩ => parameters.map Parameter.outline ++ [body.outline]

def Branch.outline : Branch → Outline
  | ⟨pattern, consequent, span⟩ =>
      .node span (Expr.outline? pattern ++ [consequent.outline])

def Branch.outlines : List Branch → List Outline
  | [] => []
  | b :: rest => b.outline :: Branch.outlines rest

def Binding.outline : Binding → Outline
  | ⟨_, _, value, span⟩ => .node span (Expr.outline? value)

def Binding.outlines : List Binding → List Outline
  | [] => []
  | b :: rest => b.outline :: Binding.outlines rest

/-- The parts of a statement of some shape. -/
def Action.parts : Action → List Outline
  | .pull _ => []
  | .declare bindings => Binding.outlines bindings
  | .break_ => []
  | .breakIf condition => [condition.outline]
  | .return_ value => Expr.outline? value
  | .evaluate e => [e.outline]

def Stmt.outline : Stmt → Outline
  | ⟨action, _, span⟩ => .node span action.parts

def Stmt.outlines : List Stmt → List Outline
  | [] => []
  | st :: rest => st.outline :: Stmt.outlines rest

end

@[simp] theorem Expr.span_outline (e : Expr) : e.outline.span = e.span := by
  cases e
  rfl

@[simp] theorem Stmt.span_outline (st : Stmt) : st.outline.span = st.span := by
  cases st
  rfl

theorem Expr.outlines_eq_map (es : List Expr) : outlines es = es.map outline := by
  induction es with
  | nil => rfl
  | cons e es ih => rw [outlines, ih, List.map_cons]

theorem Branch.outlines_eq_map (bs : List Branch) :
    outlines bs = bs.map outline := by
  induction bs with
  | nil => rfl
  | cons b bs ih => rw [outlines, ih, List.map_cons]

theorem Binding.outlines_eq_map (bs : List Binding) :
    outlines bs = bs.map outline := by
  induction bs with
  | nil => rfl
  | cons b bs ih => rw [outlines, ih, List.map_cons]

theorem Stmt.outlines_eq_map (sts : List Stmt) :
    outlines sts = sts.map outline := by
  induction sts with
  | nil => rfl
  | cons st sts ih => rw [outlines, ih, List.map_cons]

theorem Alternative.parts_eq_flatMap (as : List Alternative) :
    parts as = as.flatMap fun a => [a.condition.outline, a.body.outline] := by
  induction as with
  | nil => rfl
  | cons a as ih =>
      cases a
      rw [parts, ih, List.flatMap_cons, List.cons_append, List.singleton_append]

end ScriptLang
