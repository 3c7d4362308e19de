import ScriptLang.Proofs.Tree.Moved

/-!
# Trees without places

Two trees are the same up to their spans if they are equal once every span in them
has been replaced by one and the same.  `Expr.bare` and `Stmt.bare` do that, through
everything that a tree can hold.
-/

namespace ScriptLang

/-- A parameter without its place. -/
def Parameter.bare (p : Parameter) : Parameter := { p with span := default }

mutual

/-- An expression without places. -/
def Expr.bare : Expr → Expr
  | ⟨node, _⟩ => ⟨node.bare, default⟩

/-- A shape of expression without places. -/
def Node.bare : Node → Node
  | .block statements => .block (Stmt.bareEach statements)
  | .conditional branches otherwise =>
      .conditional (Alternative.bareEach branches) (Expr.bare? otherwise)
  | .forLoop counter start stop step body =>
    .forLoop counter (Expr.bare? start) stop.bare (Expr.bare? step) body.bare
  | .whileLoop condition body => .whileLoop condition.bare body.bare
  | .function definition => .function definition.bare
  | .matching argument branches =>
      .matching argument.bare (Branch.bareEach branches)
  | .grouping inner => .grouping inner.bare
  | .binary operator left right => .binary operator left.bare right.bare
  | .unary operator operand => .unary operator operand.bare
  | .call callee arguments => .call callee.bare (Expr.bareEach arguments)
  | .name text => .name text
  | .literal value => .literal value
  | .cast target operand => .cast target operand.bare
  | .type target => .type target

/-- An optional expression without places. -/
def Expr.bare? : Option Expr → Option Expr
  | some e => some e.bare
  | none => none

/-- Expressions without places. -/
def Expr.bareEach : List Expr → List Expr
  | [] => []
  | e :: rest => e.bare :: Expr.bareEach rest

/-- A condition and its body without places. -/
def Alternative.bare : Alternative → Alternative
  | ⟨condition, body⟩ => ⟨condition.bare, body.bare⟩

/-- Alternatives without places. -/
def Alternative.bareEach : List Alternative → List Alternative
  | [] => []
  | a :: rest => a.bare :: Alternative.bareEach rest

/-- The parameters and the body of a function without places. -/
def FunctionDef.bare : FunctionDef → FunctionDef
  | ⟨parameters, body⟩ => ⟨parameters.map Parameter.bare, body.bare⟩

/-- A branch of a `match` without places. -/
def Branch.bare : Branch → Branch
  | ⟨pattern, consequent, _⟩ => ⟨Expr.bare? pattern, consequent.bare, default⟩

/-- Branches without places. -/
def Branch.bareEach : List Branch → List Branch
  | [] => []
  | b :: rest => b.bare :: Branch.bareEach rest

/-- One name of a declaration without places. -/
def Binding.bare : Binding → Binding
  | ⟨name, const, value, _⟩ => ⟨name, const, Expr.bare? value, default⟩

/-- The names of a declaration without places. -/
def Binding.bareEach : List Binding → List Binding
  | [] => []
  | b :: rest => b.bare :: Binding.bareEach rest

/-- A shape of statement without places. -/
def Action.bare : Action → Action
  | .pull path => .pull path
  | .declare bindings => .declare (Binding.bareEach bindings)
  | .break_ => .break_
  | .breakIf condition => .breakIf condition.bare
  | .return_ value => .return_ (Expr.bare? value)
  | .evaluate e => .evaluate e.bare

/-- A statement without places. -/
def Stmt.bare : Stmt → Stmt
  | ⟨action, terminated, _⟩ => ⟨action.bare, terminated, default⟩

/-- Statements without places. -/
def Stmt.bareEach : List Stmt → List Stmt
  | [] => []
  | s :: rest => s.bare :: Stmt.bareEach rest

end

theorem Expr.bareEach_append (es fs : List Expr) :
    bareEach (es ++ fs) = bareEach es ++ bareEach fs := by
  induction es with
  | nil => rfl
  | cons e es ih => rw [List.cons_append, bareEach, bareEach, ih, List.cons_append]

theorem Expr.bareEach_eq_map (es : List Expr) : bareEach es = es.map bare := by
  induction es with
  | nil => rfl
  | cons e es ih => rw [bareEach, ih, List.map_cons]

theorem Alternative.bareEach_eq_map (as : List Alternative) :
    bareEach as = as.map bare := by
  induction as with
  | nil => rfl
  | cons a as ih => rw [bareEach, ih, List.map_cons]

theorem Branch.bareEach_eq_map (bs : List Branch) : bareEach bs = bs.map bare := by
  induction bs with
  | nil => rfl
  | cons b bs ih => rw [bareEach, ih, List.map_cons]

theorem Binding.bareEach_eq_map (bs : List Binding) :
    bareEach bs = bs.map bare := by
  induction bs with
  | nil => rfl
  | cons b bs ih => rw [bareEach, ih, List.map_cons]

theorem Stmt.bareEach_eq_map (ss : List Stmt) : bareEach ss = ss.map bare := by
  induction ss with
  | nil => rfl
  | cons s ss ih => rw [bareEach, ih, List.map_cons]

/-- A name is one with or without its place. -/
theorem Expr.node_eq_name {e : Expr} {text : String} {place : Span}
    (h : e.bare = Expr.bare ⟨.name text, place⟩) : e.node = .name text := by
  obtain ⟨node, span⟩ := e
  simp only [Expr.bare, Expr.mk.injEq, and_true] at h
  cases node with
  | name text' =>
      simp only [Node.bare] at h
      exact h
  | _ => simp [Node.bare] at h

theorem Expr.node_eq_literal {e : Expr} {value : Literal} {place : Span}
    (h : e.bare = Expr.bare ⟨.literal value, place⟩) : e.node = .literal value := by
  obtain ⟨node, span⟩ := e
  simp only [Expr.bare, Expr.mk.injEq, and_true] at h
  cases node with
  | literal value' =>
      simp only [Node.bare] at h
      exact h
  | _ => simp [Node.bare] at h

theorem Expr.node_eq_unary {e operand : Expr} {o : Operator} {place : Span}
    (h : e.bare = Expr.bare ⟨.unary o operand, place⟩) :
    ∃ operand', e.node = .unary o operand' ∧ operand'.bare = operand.bare := by
  obtain ⟨node, span⟩ := e
  simp only [Expr.bare, Expr.mk.injEq, and_true] at h
  cases node with
  | unary o' operand' =>
      simp only [Node.bare, Node.unary.injEq] at h
      obtain ⟨rfl, hoperand⟩ := h
      exact ⟨operand', rfl, hoperand⟩
  | _ => simp [Node.bare] at h

/-! ## Moving -/

section Moving

variable (φ : Position → Position)

mutual

/-- Without places, it makes no difference whether a tree was moved. -/
theorem Expr.bare_moved : ∀ e : Expr, (e.moved φ).bare = e.bare
  | ⟨node, _⟩ => by rw [Expr.moved, Expr.bare, Expr.bare, Node.bare_moved node]

theorem Node.bare_moved : ∀ node : Node, (node.moved φ).bare = node.bare
  | .block statements =>
      by rw [Node.moved, Node.bare, Node.bare, Stmt.bareEach_moved statements]
  | .conditional branches otherwise => by
    rw [Node.moved, Node.bare, Node.bare, Alternative.bareEach_moved branches,
      Expr.bare?_moved otherwise]
  | .forLoop _ start stop step body => by
    rw [Node.moved, Node.bare, Node.bare, Expr.bare?_moved start,
      Expr.bare_moved stop, Expr.bare?_moved step, Expr.bare_moved body]
  | .whileLoop condition body => by
    rw [Node.moved, Node.bare, Node.bare, Expr.bare_moved condition,
      Expr.bare_moved body]
  | .function definition =>
      by rw [Node.moved, Node.bare, Node.bare, FunctionDef.bare_moved definition]
  | .matching argument branches => by
    rw [Node.moved, Node.bare, Node.bare, Expr.bare_moved argument,
      Branch.bareEach_moved branches]
  | .grouping inner =>
      by rw [Node.moved, Node.bare, Node.bare, Expr.bare_moved inner]
  | .binary _ left right => by
    rw [Node.moved, Node.bare, Node.bare, Expr.bare_moved left,
      Expr.bare_moved right]
  | .unary _ operand =>
      by rw [Node.moved, Node.bare, Node.bare, Expr.bare_moved operand]
  | .call callee arguments => by
    rw [Node.moved, Node.bare, Node.bare, Expr.bare_moved callee,
      Expr.bareEach_moved arguments]
  | .name _ => rfl
  | .literal _ => rfl
  | .cast _ operand =>
      by rw [Node.moved, Node.bare, Node.bare, Expr.bare_moved operand]
  | .type _ => rfl

theorem Expr.bare?_moved :
    ∀ e : Option Expr, Expr.bare? (Expr.moved? φ e) = Expr.bare? e
  | some e => by rw [Expr.moved?, Expr.bare?, Expr.bare?, Expr.bare_moved e]
  | none => rfl

theorem Expr.bareEach_moved :
    ∀ es : List Expr, Expr.bareEach (Expr.movedEach φ es) = Expr.bareEach es
  | [] => rfl
  | e :: rest => by
    rw [Expr.movedEach, Expr.bareEach, Expr.bareEach, Expr.bare_moved e,
      Expr.bareEach_moved rest]

theorem Alternative.bareEach_moved : ∀ branches : List Alternative,
    Alternative.bareEach (Alternative.movedEach φ branches) =
      Alternative.bareEach branches
  | [] => rfl
  | ⟨condition, body⟩ :: rest => by
    rw [Alternative.movedEach, Alternative.bareEach, Alternative.bareEach,
      Alternative.moved, Alternative.bare, Alternative.bare,
      Expr.bare_moved condition, Expr.bare_moved body,
      Alternative.bareEach_moved rest]

theorem FunctionDef.bare_moved : ∀ d : FunctionDef, (d.moved φ).bare = d.bare
  | ⟨parameters, body⟩ => by
    rw [FunctionDef.moved, FunctionDef.bare, FunctionDef.bare,
      Expr.bare_moved body, List.map_map]
    rfl

theorem Branch.bareEach_moved : ∀ branches : List Branch,
    Branch.bareEach (Branch.movedEach φ branches) = Branch.bareEach branches
  | [] => rfl
  | ⟨pattern, consequent, _⟩ :: rest => by
    rw [Branch.movedEach, Branch.bareEach, Branch.bareEach, Branch.moved,
      Branch.bare, Branch.bare, Expr.bare?_moved pattern,
      Expr.bare_moved consequent, Branch.bareEach_moved rest]

theorem Binding.bareEach_moved : ∀ bindings : List Binding,
    Binding.bareEach (Binding.movedEach φ bindings) = Binding.bareEach bindings
  | [] => rfl
  | ⟨_, _, value, _⟩ :: rest => by
    rw [Binding.movedEach, Binding.bareEach, Binding.bareEach, Binding.moved,
      Binding.bare, Binding.bare, Expr.bare?_moved value,
      Binding.bareEach_moved rest]

theorem Action.bare_moved : ∀ a : Action, (a.moved φ).bare = a.bare
  | .pull _ => rfl
  | .declare bindings =>
      by
        rw [Action.moved, Action.bare, Action.bare, Binding.bareEach_moved bindings]
  | .break_ => rfl
  | .breakIf condition =>
      by rw [Action.moved, Action.bare, Action.bare, Expr.bare_moved condition]
  | .return_ value =>
      by rw [Action.moved, Action.bare, Action.bare, Expr.bare?_moved value]
  | .evaluate e => by rw [Action.moved, Action.bare, Action.bare, Expr.bare_moved e]

theorem Stmt.bareEach_moved : ∀ statements : List Stmt,
    Stmt.bareEach (Stmt.movedEach φ statements) = Stmt.bareEach statements
  | [] => rfl
  | ⟨action, _, _⟩ :: rest => by
    rw [Stmt.movedEach, Stmt.bareEach, Stmt.bareEach, Stmt.moved, Stmt.bare,
      Stmt.bare, Action.bare_moved action, Stmt.bareEach_moved rest]

end

theorem Stmt.bare_moved (s : Stmt) : (s.moved φ).bare = s.bare := by
  obtain ⟨action, terminated, span⟩ := s
  rw [Stmt.moved, Stmt.bare, Stmt.bare, Action.bare_moved]

end Moving

end ScriptLang
