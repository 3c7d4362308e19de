import ScriptLang.Token.Basic
import ScriptLang.Tree.Basic

/-!
# Trees as sequences of tokens

`Stmt.write` and `Expr.write` put a tree back into tokens: keywords, punctuation,
names, literals and operators in their grammatical places, a grouping as a pair of
parentheses, and a semicolon behind a statement that had one.  No parentheses are
added, so the writing of a tree says how it was grouped only as far as the grammar
does.
-/

namespace ScriptLang

namespace Lexeme

/-- Pieces with a lexeme between each two of them. -/
def separated (separator : Lexeme) (pieces : List (List Lexeme)) : List Lexeme :=
  [separator].intercalate pieces

@[simp] theorem separated_nil (separator : Lexeme) : separated separator [] = [] :=
  rfl

@[simp] theorem separated_singleton (separator : Lexeme) (piece : List Lexeme) :
    separated separator [piece] = piece := by
  simp [separated]

theorem separated_cons (separator : Lexeme) (piece : List Lexeme)
    {pieces : List (List Lexeme)} (h : pieces ≠ []) :
    separated separator (piece :: pieces) = piece ++ separator ::
      separated separator pieces := by
  cases pieces with
  | nil => exact absurd rfl h
  | cons next rest => simp [separated]

/-- The separator stands behind every piece but the last. -/
theorem separated_concat (separator : Lexeme) (pieces : List (List Lexeme))
    (last : List Lexeme) :
    separated separator (pieces ++ [last]) =
      pieces.flatMap (· ++ [separator]) ++ last := by
  induction pieces with
  | nil => simp
  | cons piece pieces ih =>
      rw [List.cons_append, separated_cons _ _ (by simp), ih]
      simp

/-- The separator stands before every piece but the first. -/
theorem separated_append_singleton (separator : Lexeme)
    {pieces : List (List Lexeme)} (h : pieces ≠ []) (last : List Lexeme) :
    separated separator (pieces ++ [last]) = separated separator pieces ++
      separator :: last := by
  induction pieces with
  | nil => exact absurd rfl h
  | cons piece pieces ih =>
      cases pieces with
      | nil => simp [separated]
      | cons next rest =>
          have hpieces := ih (List.cons_ne_nil next rest)
          have hlast : next :: rest ++ [last] ≠ [] := List.cons_ne_nil _ _
          rw [List.cons_append, separated_cons separator piece hlast, hpieces,
            separated_cons separator piece (List.cons_ne_nil next rest)]
          simp

end Lexeme

/-- The token that writes a literal. -/
def Literal.lexeme : Literal → Lexeme
  | .null => .keyword .null
  | .bool true => .keyword .true
  | .bool false => .keyword .false
  | .integer value => .integer value
  | .float value => .float value
  | .string text => .string text

/-- The word that names a type. -/
def TypeName.keyword : TypeName → Keyword
  | .int => .int
  | .float => .float
  | .string => .string
  | .bool => .bool
  | .null => .null
  | .function => .function

/-- The tokens that write an operator. -/
def Operator.lexemes : Operator → List Lexeme
  | .add | .plus => [.symbol .plus]
  | .subtract | .negate => [.symbol .minus]
  | .multiply => [.symbol .star]
  | .divide => [.symbol .slash]
  | .remainder => [.symbol .percent]
  | .exponent => [.symbol .caret]
  | .concatenate => [.symbol .dotDot]
  | .not => [.symbol .bang]
  | .less | .matchLess => [.symbol .less]
  | .lessEqual | .matchLessEqual => [.symbol .lessEqual]
  | .greater | .matchGreater => [.symbol .greater]
  | .greaterEqual | .matchGreaterEqual => [.symbol .greaterEqual]
  | .equal | .matchEqual => [.symbol .equalEqual]
  | .notEqual | .matchNotEqual => [.symbol .notEqual]
  | .and => [.symbol .andAnd]
  | .or => [.symbol .orOr]
  | .nullCoalescing => [.symbol .questionQuestion]
  | .nullsafePipe => [.symbol .questionGreater]
  | .is | .matchIs => [.keyword .is]
  | .isNot | .matchIsNot => [.keyword .is, .keyword .not]
  | .assign => [.symbol .assign]
  | .addAssign => [.symbol .plusAssign]
  | .subtractAssign => [.symbol .minusAssign]
  | .multiplyAssign => [.symbol .starAssign]
  | .divideAssign => [.symbol .slashAssign]
  | .remainderAssign => [.symbol .percentAssign]
  | .access => [.symbol .dot]
  | .matchAnd => [.keyword .and]
  | .matchOr => [.keyword .or]

/-- A piece in parentheses. -/
def Lexeme.enclosed (piece : List Lexeme) : List Lexeme :=
  .symbol .leftParen :: piece ++ [.symbol .rightParen]

/-- A parameter: `const` before the name and an exclamation mark behind it are
optional. -/
def Parameter.write (p : Parameter) : List Lexeme :=
  (if p.const then [.keyword .const] else []) ++ .identifier p.name ::
    (if p.nonNull then [.symbol .bang] else [])

/-- The counter of a loop with its comma. -/
def Lexeme.counter : Option String → List Lexeme
  | some name => [.identifier name, .symbol .comma]
  | none => []

mutual

/-- The tokens of an expression. -/
def Expr.write : Expr → List Lexeme
  | ⟨node, _⟩ => node.write

/-- The tokens of a shape of expression. -/
def Node.write : Node → List Lexeme
  | .block statements =>
    .symbol .leftBrace :: (Stmt.writeEach statements).flatten ++
      [.symbol .rightBrace]
  | .conditional branches otherwise =>
    .keyword .if_ :: Lexeme.separated (.keyword .elif)
      (Alternative.writeEach branches) ++
      Expr.writeAfter [.keyword .else_] otherwise
  | .forLoop counter start stop step body =>
    .keyword .for_ :: Lexeme.enclosed
      (Lexeme.counter counter ++ Expr.writeBefore [.symbol .colon] start ++
      stop.write ++ Expr.writeAfter [.symbol .colon] step) ++ body.write
  | .whileLoop condition body =>
      .keyword .while_ :: Lexeme.enclosed condition.write ++ body.write
  | .function definition => .keyword .functi :: definition.write
  | .matching argument branches =>
    .keyword .match_ :: Lexeme.enclosed argument.write ++ .symbol .leftBrace ::
      (Branch.writeEach branches).flatten ++ [.symbol .rightBrace]
  | .grouping inner => Lexeme.enclosed inner.write
  | .binary operator left right => left.write ++ operator.lexemes ++ right.write
  | .unary operator operand => operator.lexemes ++ operand.write
  | .call callee arguments =>
    callee.write ++ Lexeme.enclosed
      (Lexeme.separated (.symbol .comma) (Expr.writeEach arguments))
  | .name text => [.identifier text]
  | .literal value => [value.lexeme]
  | .cast target operand => .keyword target.keyword :: Lexeme.enclosed operand.write
  | .type target => [.keyword target.keyword]

/-- The tokens of an optional expression with others before it. -/
def Expr.writeAfter (opener : List Lexeme) : Option Expr → List Lexeme
  | some e => opener ++ e.write
  | none => []

/-- The tokens of an optional expression with others behind it. -/
def Expr.writeBefore (closer : List Lexeme) : Option Expr → List Lexeme
  | some e => e.write ++ closer
  | none => []

/-- The tokens of each expression. -/
def Expr.writeEach : List Expr → List (List Lexeme)
  | [] => []
  | e :: rest => e.write :: Expr.writeEach rest

/-- The tokens of a condition and its body, without the keyword before them. -/
def Alternative.write : Alternative → List Lexeme
  | ⟨condition, body⟩ => Lexeme.enclosed condition.write ++ body.write

/-- The tokens of each alternative. -/
def Alternative.writeEach : List Alternative → List (List Lexeme)
  | [] => []
  | a :: rest => a.write :: Alternative.writeEach rest

/-- The tokens of the parameters and the body of a function. -/
def FunctionDef.write : FunctionDef → List Lexeme
  | ⟨parameters, body⟩ =>
    Lexeme.enclosed (Lexeme.separated (.symbol .comma)
      (parameters.map Parameter.write)) ++ body.write

/-- The tokens of a branch of a `match`. -/
def Branch.write : Branch → List Lexeme
  | ⟨some pattern, consequent, _⟩ =>
    pattern.write ++ .symbol .colon :: consequent.write ++ [.symbol .semicolon]
  | ⟨none, consequent, _⟩ =>
    .keyword .default :: .symbol .colon :: consequent.write ++ [.symbol .semicolon]

/-- The tokens of each branch. -/
def Branch.writeEach : List Branch → List (List Lexeme)
  | [] => []
  | b :: rest => b.write :: Branch.writeEach rest

/-- The tokens of one name of a declaration. -/
def Binding.write : Binding → List Lexeme
  | ⟨name, const, value, _⟩ =>
    (if const then [.keyword .const] else []) ++ .identifier name ::
      Expr.writeAfter [.symbol .assign] value

/-- The tokens of each name of a declaration. -/
def Binding.writeEach : List Binding → List (List Lexeme)
  | [] => []
  | b :: rest => b.write :: Binding.writeEach rest

/-- The tokens of a statement without its semicolon. -/
def Action.write : Action → List Lexeme
  | .pull path =>
      .keyword .pull :: Lexeme.separated (.symbol .dot)
        (path.map fun n => [.identifier n])
  | .declare bindings =>
    .keyword .init :: Lexeme.separated (.symbol .comma) (Binding.writeEach bindings)
  | .break_ => [.keyword .break_]
  | .breakIf condition => .keyword .breakIf :: Lexeme.enclosed condition.write
  | .return_ value => .keyword .return_ :: Expr.writeAfter [] value
  | .evaluate e => e.write

/-- The tokens of a statement. -/
def Stmt.write : Stmt → List Lexeme
  | ⟨action, terminated, _⟩ =>
      action.write ++ if terminated then [.symbol .semicolon] else []

/-- The tokens of each statement. -/
def Stmt.writeEach : List Stmt → List (List Lexeme)
  | [] => []
  | s :: rest => s.write :: Stmt.writeEach rest

end

theorem Expr.writeEach_eq_map (es : List Expr) : writeEach es = es.map write := by
  induction es with
  | nil => rfl
  | cons e es ih => rw [writeEach, ih, List.map_cons]

theorem Alternative.writeEach_eq_map (as : List Alternative) :
    writeEach as = as.map write := by
  induction as with
  | nil => rfl
  | cons a as ih => rw [writeEach, ih, List.map_cons]

theorem Branch.writeEach_eq_map (bs : List Branch) :
    writeEach bs = bs.map write := by
  induction bs with
  | nil => rfl
  | cons b bs ih => rw [writeEach, ih, List.map_cons]

theorem Binding.writeEach_eq_map (bs : List Binding) :
    writeEach bs = bs.map write := by
  induction bs with
  | nil => rfl
  | cons b bs ih => rw [writeEach, ih, List.map_cons]

theorem Stmt.writeEach_eq_map (ss : List Stmt) : writeEach ss = ss.map write := by
  induction ss with
  | nil => rfl
  | cons s ss ih => rw [writeEach, ih, List.map_cons]

/-! ## Nothing is written without tokens -/

theorem Operator.lexemes_ne_nil (o : Operator) : o.lexemes ≠ [] := by
  cases o <;> simp [lexemes]

theorem Expr.write_ne_nil (e : Expr) : e.write ≠ [] := by
  obtain ⟨node, span⟩ := e
  cases node <;> simp [Expr.write, Node.write, Lexeme.enclosed,
    Operator.lexemes_ne_nil]

theorem Stmt.write_ne_nil (st : Stmt) : st.write ≠ [] := by
  obtain ⟨action, terminated, span⟩ := st
  cases action <;> simp [Stmt.write, Action.write, Expr.write_ne_nil]

end ScriptLang
