import ScriptLang.Tree.Basic

/-!
# Trees that are moved

A tree says of each of its parts where it stands.  `Expr.moved` and `Stmt.moved`
apply a map of positions to all places in a tree and leave everything else as it is.
Lists and options of trees are moved element by element; these equations are simp
lemmas, so that the maps inside a moved tree are plain `List.map` and `Option.map`.
-/

namespace ScriptLang

variable (φ : Position → Position)

/-- A span with both of its ends moved. -/
def Span.moved (s : Span) : Span := ⟨φ s.start, φ s.stop⟩

/-- A parameter that is moved. -/
def Parameter.moved (p : Parameter) : Parameter := { p with span := p.span.moved φ }

mutual

/-- An expression that is moved. -/
def Expr.moved : Expr → Expr
  | ⟨node, span⟩ => ⟨node.moved, span.moved φ⟩

/-- A shape of expression whose parts are moved. -/
def Node.moved : Node → Node
  | .block statements => .block (Stmt.movedEach statements)
  | .conditional branches otherwise =>
      .conditional (Alternative.movedEach branches) (Expr.moved? otherwise)
  | .forLoop counter start stop step body =>
    .forLoop counter (Expr.moved? start) stop.moved (Expr.moved? step) body.moved
  | .whileLoop condition body => .whileLoop condition.moved body.moved
  | .function definition => .function definition.moved
  | .matching argument branches =>
      .matching argument.moved (Branch.movedEach branches)
  | .grouping inner => .grouping inner.moved
  | .binary operator left right => .binary operator left.moved right.moved
  | .unary operator operand => .unary operator operand.moved
  | .call callee arguments => .call callee.moved (Expr.movedEach arguments)
  | .name text => .name text
  | .literal value => .literal value
  | .cast target operand => .cast target operand.moved
  | .type target => .type target

/-- An optional expression that is moved. -/
def Expr.moved? : Option Expr → Option Expr
  | some e => some e.moved
  | none => none

/-- Expressions that are moved. -/
def Expr.movedEach : List Expr → List Expr
  | [] => []
  | e :: rest => e.moved :: Expr.movedEach rest

/-- A condition and its body that are moved. -/
def Alternative.moved : Alternative → Alternative
  | ⟨condition, body⟩ => ⟨condition.moved, body.moved⟩

/-- Alternatives that are moved. -/
def Alternative.movedEach : List Alternative → List Alternative
  | [] => []
  | a :: rest => a.moved :: Alternative.movedEach rest

/-- The parameters and the body of a function that is moved. -/
def FunctionDef.moved : FunctionDef → FunctionDef
  | ⟨parameters, body⟩ => ⟨parameters.map (Parameter.moved φ), body.moved⟩

/-- A branch of a `match` that is moved. -/
def Branch.moved : Branch → Branch
  | ⟨pattern, consequent, span⟩ =>
      ⟨Expr.moved? pattern, consequent.moved, span.moved φ⟩

/-- Branches that are moved. -/
def Branch.movedEach : List Branch → List Branch
  | [] => []
  | b :: rest => b.moved :: Branch.movedEach rest

/-- One name of a declaration that is moved. -/
def Binding.moved : Binding → Binding
  | ⟨name, const, value, span⟩ => ⟨name, const, Expr.moved? value, span.moved φ⟩

/-- The names of a declaration that is moved. -/
def Binding.movedEach : List Binding → List Binding
  | [] => []
  | b :: rest => b.moved :: Binding.movedEach rest

/-- A shape of statement whose parts are moved. -/
def Action.moved : Action → Action
  | .pull path => .pull path
  | .declare bindings => .declare (Binding.movedEach bindings)
  | .break_ => .break_
  | .breakIf condition => .breakIf condition.moved
  | .return_ value => .return_ (Expr.moved? value)
  | .evaluate e => .evaluate e.moved

/-- A statement that is moved. -/
def Stmt.moved : Stmt → Stmt
  | ⟨action, terminated, span⟩ => ⟨action.moved, terminated, span.moved φ⟩

/-- Statements that are moved. -/
def Stmt.movedEach : List Stmt → List Stmt
  | [] => []
  | s :: rest => s.moved :: Stmt.movedEach rest

end

/-! ## Lists and options -/

@[simp] theorem Expr.moved?_eq (e : Option Expr) :
    Expr.moved? φ e = e.map (Expr.moved φ) := by
  cases e <;> rfl

@[simp] theorem Expr.movedEach_eq (es : List Expr) :
    Expr.movedEach φ es = es.map (Expr.moved φ) := by
  induction es with
  | nil => rfl
  | cons e es ih => rw [Expr.movedEach, ih, List.map_cons]

@[simp] theorem Alternative.movedEach_eq (branches : List Alternative) :
    Alternative.movedEach φ branches = branches.map (Alternative.moved φ) := by
  induction branches with
  | nil => rfl
  | cons a branches ih => rw [Alternative.movedEach, ih, List.map_cons]

@[simp] theorem Branch.movedEach_eq (branches : List Branch) :
    Branch.movedEach φ branches = branches.map (Branch.moved φ) := by
  induction branches with
  | nil => rfl
  | cons b branches ih => rw [Branch.movedEach, ih, List.map_cons]

@[simp] theorem Binding.movedEach_eq (bindings : List Binding) :
    Binding.movedEach φ bindings = bindings.map (Binding.moved φ) := by
  induction bindings with
  | nil => rfl
  | cons b bindings ih => rw [Binding.movedEach, ih, List.map_cons]

@[simp] theorem Stmt.movedEach_eq (statements : List Stmt) :
    Stmt.movedEach φ statements = statements.map (Stmt.moved φ) := by
  induction statements with
  | nil => rfl
  | cons s statements ih => rw [Stmt.movedEach, ih, List.map_cons]

/-! ## Parts of a moved tree -/

@[simp] theorem Expr.node_moved (e : Expr) : (e.moved φ).node = e.node.moved φ := by
  cases e
  rfl

@[simp] theorem Expr.span_moved (e : Expr) : (e.moved φ).span = e.span.moved φ := by
  cases e
  rfl

@[simp] theorem Alternative.condition_moved (a : Alternative) :
    (a.moved φ).condition = a.condition.moved φ := by
  cases a
  rfl

@[simp] theorem Alternative.body_moved (a : Alternative) :
    (a.moved φ).body = a.body.moved φ := by
  cases a
  rfl

@[simp] theorem FunctionDef.parameters_moved (d : FunctionDef) :
    (d.moved φ).parameters = d.parameters.map (Parameter.moved φ) := by
  cases d
  rfl

@[simp] theorem FunctionDef.body_moved (d : FunctionDef) :
    (d.moved φ).body = d.body.moved φ := by
  cases d
  rfl

@[simp] theorem Branch.pattern_moved (b : Branch) :
    (b.moved φ).pattern = b.pattern.map (Expr.moved φ) := by
  cases b
  simp [Branch.moved]

@[simp] theorem Branch.consequent_moved (b : Branch) :
    (b.moved φ).consequent = b.consequent.moved φ := by
  cases b
  rfl

@[simp] theorem Binding.name_moved (b : Binding) : (b.moved φ).name = b.name := by
  cases b
  rfl

@[simp] theorem Binding.const_moved (b : Binding) :
    (b.moved φ).const = b.const := by
  cases b
  rfl

@[simp] theorem Binding.value_moved (b : Binding) :
    (b.moved φ).value = b.value.map (Expr.moved φ) := by
  cases b
  simp [Binding.moved]

@[simp] theorem Stmt.action_moved (s : Stmt) :
    (s.moved φ).action = s.action.moved φ := by
  cases s
  rfl

@[simp] theorem Stmt.terminated_moved (s : Stmt) :
    (s.moved φ).terminated = s.terminated := by
  cases s
  rfl

@[simp] theorem Stmt.span_moved (s : Stmt) : (s.moved φ).span = s.span.moved φ := by
  cases s
  rfl

/-! ## Moving nothing -/

theorem Parameter.moved_id (p : Parameter) : p.moved id = p := rfl

mutual

/-- A tree that is moved by nothing is itself. -/
theorem Expr.moved_id : ∀ e : Expr, e.moved id = e
  | ⟨node, _⟩ => by rw [Expr.moved, Node.moved_id node]; rfl

theorem Node.moved_id : ∀ node : Node, node.moved id = node
  | .block statements => by rw [Node.moved, Stmt.movedEach_id statements]
  | .conditional branches otherwise => by
    rw [Node.moved, Alternative.movedEach_id branches, Expr.moved?_id otherwise]
  | .forLoop _ start stop step body => by
    rw [Node.moved, Expr.moved?_id start, Expr.moved_id stop, Expr.moved?_id step,
      Expr.moved_id body]
  | .whileLoop condition body =>
      by rw [Node.moved, Expr.moved_id condition, Expr.moved_id body]
  | .function definition => by rw [Node.moved, FunctionDef.moved_id definition]
  | .matching argument branches => by
    rw [Node.moved, Expr.moved_id argument, Branch.movedEach_id branches]
  | .grouping inner => by rw [Node.moved, Expr.moved_id inner]
  | .binary _ left right =>
      by rw [Node.moved, Expr.moved_id left, Expr.moved_id right]
  | .unary _ operand => by rw [Node.moved, Expr.moved_id operand]
  | .call callee arguments =>
      by rw [Node.moved, Expr.moved_id callee, Expr.movedEach_id arguments]
  | .name _ => rfl
  | .literal _ => rfl
  | .cast _ operand => by rw [Node.moved, Expr.moved_id operand]
  | .type _ => rfl

theorem Expr.moved?_id : ∀ e : Option Expr, Expr.moved? id e = e
  | some e => by rw [Expr.moved?, Expr.moved_id e]
  | none => rfl

theorem Expr.movedEach_id : ∀ es : List Expr, Expr.movedEach id es = es
  | [] => rfl
  | e :: rest => by rw [Expr.movedEach, Expr.moved_id e, Expr.movedEach_id rest]

theorem Alternative.movedEach_id :
    ∀ branches : List Alternative, Alternative.movedEach id branches = branches
  | [] => rfl
  | ⟨condition, body⟩ :: rest => by
    rw [Alternative.movedEach, Alternative.moved, Expr.moved_id condition,
      Expr.moved_id body, Alternative.movedEach_id rest]

theorem FunctionDef.moved_id : ∀ d : FunctionDef, d.moved id = d
  | ⟨parameters, body⟩ => by
    have hparameters : parameters.map (Parameter.moved id) = parameters :=
      List.map_id parameters
    rw [FunctionDef.moved, Expr.moved_id body, hparameters]

theorem Branch.movedEach_id :
    ∀ branches : List Branch, Branch.movedEach id branches = branches
  | [] => rfl
  | ⟨pattern, consequent, _⟩ :: rest => by
    rw [Branch.movedEach, Branch.moved, Expr.moved?_id pattern,
      Expr.moved_id consequent, Branch.movedEach_id rest]
    rfl

theorem Binding.movedEach_id :
    ∀ bindings : List Binding, Binding.movedEach id bindings = bindings
  | [] => rfl
  | ⟨_, _, value, _⟩ :: rest => by
    rw [Binding.movedEach, Binding.moved, Expr.moved?_id value,
      Binding.movedEach_id rest]
    rfl

theorem Action.moved_id : ∀ a : Action, a.moved id = a
  | .pull _ => rfl
  | .declare bindings => by rw [Action.moved, Binding.movedEach_id bindings]
  | .break_ => rfl
  | .breakIf condition => by rw [Action.moved, Expr.moved_id condition]
  | .return_ value => by rw [Action.moved, Expr.moved?_id value]
  | .evaluate e => by rw [Action.moved, Expr.moved_id e]

theorem Stmt.movedEach_id :
    ∀ statements : List Stmt, Stmt.movedEach id statements = statements
  | [] => rfl
  | ⟨action, _, _⟩ :: rest => by
    rw [Stmt.movedEach, Stmt.moved, Action.moved_id action, Stmt.movedEach_id rest]
    rfl

end

theorem Stmt.moved_id (s : Stmt) : s.moved id = s := by
  obtain ⟨action, terminated, span⟩ := s
  rw [Stmt.moved, Action.moved_id]
  rfl

end ScriptLang
