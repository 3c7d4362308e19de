import ScriptLang.Proofs.Tree.Writing

/-!
# Brackets

Parentheses and braces nest.  `Lexeme.nesting` says which of them are open behind
some lexemes, given those that are open before them, and fails where one is closed
that is not the innermost open one.

What a tree is written with is balanced: every bracket in it is closed in it, and
none is closed that was opened outside.
-/

namespace ScriptLang

/-- Brackets that nest. -/
inductive Bracket
  | paren | brace
deriving DecidableEq, Repr

namespace Lexeme

/-- The bracket that a lexeme opens. -/
def opens? : Lexeme → Option Bracket
  | .symbol .leftParen => some .paren
  | .symbol .leftBrace => some .brace
  | _ => none

/-- The bracket that a lexeme closes. -/
def closes? : Lexeme → Option Bracket
  | .symbol .rightParen => some .paren
  | .symbol .rightBrace => some .brace
  | _ => none

/-- The brackets that are open behind a lexeme, innermost first. -/
def nest (opened : List Bracket) (x : Lexeme) : Option (List Bracket) :=
  match x.opens?, x.closes? with
  | some b, _ => some (b :: opened)
  | none, some b => if opened.head? = some b then some opened.tail else none
  | none, none => some opened

/-- The brackets that are open behind some lexemes, innermost first. -/
def nesting (opened : List Bracket) (l : List Lexeme) : Option (List Bracket) :=
  l.foldlM nest opened

/-- Every bracket in a list of lexemes is opened and closed in it. -/
def Balanced (l : List Lexeme) : Prop := nesting [] l = some []

instance (l : List Lexeme) : Decidable (Balanced l) :=
  inferInstanceAs (Decidable (_ = _))

theorem nesting_append (opened : List Bracket) (l l' : List Lexeme) :
    nesting opened (l ++ l') = (nesting opened l).bind fun opened' =>
      nesting opened' l' :=
  List.foldlM_append

theorem nesting_cons (opened : List Bracket) (x : Lexeme) (l : List Lexeme) :
    nesting opened (x :: l) = (nest opened x).bind fun opened' =>
      nesting opened' l :=
  List.foldlM_cons

/-- Brackets further out stay open. -/
theorem nest_append {opened opened' : List Bracket} {x : Lexeme}
    (h : nest opened x = some opened') (outer : List Bracket) :
    nest (opened ++ outer) x = some (opened' ++ outer) := by
  unfold nest at h ⊢
  split at h
  · cases h
    rfl
  · split at h
    · rename_i hhead
      cases h
      obtain ⟨rest, rfl⟩ := List.head?_eq_some_iff.mp hhead
      simp
    · cases h
  · cases h
    rfl

theorem nesting_outer {opened opened' : List Bracket} {l : List Lexeme}
    (h : nesting opened l = some opened') (outer : List Bracket) :
    nesting (opened ++ outer) l = some (opened' ++ outer) := by
  induction l generalizing opened with
  | nil =>
      cases h
      rfl
  | cons x l ih =>
      rw [nesting_cons] at h ⊢
      obtain ⟨between, hx, hl⟩ := Option.bind_eq_some_iff.mp h
      rw [nest_append hx outer]
      exact ih hl

namespace Balanced

variable {l l' : List Lexeme}

/-- Behind a balanced stretch the same brackets are open as before it. -/
theorem nesting_eq (h : Balanced l) (opened : List Bracket) :
    nesting opened l = some opened :=
  nesting_outer h opened

theorem nil : Balanced [] := rfl

theorem append (h : Balanced l) (h' : Balanced l') : Balanced (l ++ l') := by
  unfold Balanced
  rw [nesting_append, h.nesting_eq]
  exact h'

/-- A lexeme that is no bracket. -/
theorem cons {x : Lexeme} (hx : nest [] x = some []) (h : Balanced l) :
    Balanced (x :: l) :=
  append (l := [x]) (by simpa [Balanced, nesting] using hx) h

theorem concat {x : Lexeme} (h : Balanced l) (hx : nest [] x = some []) :
    Balanced (l ++ [x]) :=
  h.append (nil.cons hx)

/-- A balanced stretch between a bracket and the one that closes it. -/
theorem between {x y : Lexeme} {b : Bracket} (hx : nest [] x = some [b])
    (h : Balanced l) (hy : nest [b] y = some []) : Balanced (x :: l ++ [y]) := by
  unfold Balanced
  rw [nesting_append, nesting_cons, hx, Option.bind_some, h.nesting_eq,
    Option.bind_some, nesting_cons, hy]
  rfl

theorem enclosed (h : Balanced l) : Balanced (Lexeme.enclosed l) :=
  between (b := .paren) rfl h rfl

theorem braced (h : Balanced l) :
    Balanced (.symbol .leftBrace :: l ++ [.symbol .rightBrace]) :=
  between (b := .brace) rfl h rfl

theorem flatten {pieces : List (List Lexeme)}
    (h : ∀ piece ∈ pieces, Balanced piece) :
    Balanced pieces.flatten := by
  induction pieces with
  | nil => exact nil
  | cons piece pieces ih =>
      have hrest := ih fun other hother => h other (List.mem_cons_of_mem _ hother)
      exact (h piece List.mem_cons_self).append hrest

theorem separated (separator : Lexeme) (hseparator : nest [] separator = some [])
    {pieces : List (List Lexeme)} (h : ∀ piece ∈ pieces, Balanced piece) :
    Balanced (Lexeme.separated separator pieces) := by
  induction pieces with
  | nil => exact nil
  | cons piece pieces ih =>
      have hpiece := h piece List.mem_cons_self
      have hrest := ih fun other hother => h other (List.mem_cons_of_mem _ hother)
      cases pieces with
      | nil =>
          rw [separated_singleton]
          exact hpiece
      | cons next rest =>
          rw [separated_cons separator piece (List.cons_ne_nil next rest)]
          exact hpiece.append (hrest.cons hseparator)

end Balanced

theorem counter_balanced (counter : Option String) :
    Balanced (Lexeme.counter counter) := by
  cases counter <;> rfl

end Lexeme

open Lexeme (Balanced)

theorem Literal.nest_lexeme (value : Literal) :
    Lexeme.nest [] value.lexeme = some [] := by
  cases value with
  | bool b => cases b <;> rfl
  | _ => rfl

theorem Operator.lexemes_balanced (o : Operator) : Balanced o.lexemes := by
  cases o <;> rfl

theorem Parameter.write_balanced (p : Parameter) : Balanced p.write := by
  obtain ⟨name, const, nonNull, span⟩ := p
  cases const <;> cases nonNull <;> rfl

/-! ## Trees -/

mutual

/-- An expression is written with balanced brackets. -/
theorem Expr.write_balanced : ∀ e : Expr, Balanced e.write
  | ⟨node, _⟩ => by
    rw [Expr.write]
    exact Node.write_balanced node

theorem Node.write_balanced : ∀ node : Node, Balanced node.write
  | .block statements => by
    rw [Node.write]
    exact (Balanced.flatten (Stmt.writeEach_balanced statements)).braced
  | .conditional branches otherwise => by
    have hbranches :=
      Balanced.separated (.keyword .elif) rfl
        (Alternative.writeEach_balanced branches)
    have hotherwise := Expr.writeAfter_balanced [.keyword .else_] rfl otherwise
    rw [Node.write]
    exact (hbranches.cons rfl).append hotherwise
  | .forLoop counter start stop step body => by
    have hstart := Expr.writeBefore_balanced [.symbol .colon] rfl start
    have hstep := Expr.writeAfter_balanced [.symbol .colon] rfl step
    have hrange :=
      (((Lexeme.counter_balanced counter).append hstart).append
        (Expr.write_balanced stop)).append
      hstep
    rw [Node.write]
    exact (hrange.enclosed.cons rfl).append (Expr.write_balanced body)
  | .whileLoop condition body => by
    rw [Node.write]
    exact ((Expr.write_balanced condition).enclosed.cons rfl).append
      (Expr.write_balanced body)
  | .function definition => by
    rw [Node.write]
    exact (FunctionDef.write_balanced definition).cons rfl
  | .matching argument branches => by
    have hbranches := (Balanced.flatten (Branch.writeEach_balanced branches)).braced
    rw [Node.write, List.append_assoc]
    exact ((Expr.write_balanced argument).enclosed.cons rfl).append hbranches
  | .grouping inner => by
    rw [Node.write]
    exact (Expr.write_balanced inner).enclosed
  | .binary operator left right => by
    rw [Node.write]
    exact ((Expr.write_balanced left).append operator.lexemes_balanced).append
      (Expr.write_balanced right)
  | .unary operator operand => by
    rw [Node.write]
    exact operator.lexemes_balanced.append (Expr.write_balanced operand)
  | .call callee arguments => by
    have harguments :=
      Balanced.separated (.symbol .comma) rfl (Expr.writeEach_balanced arguments)
    rw [Node.write]
    exact (Expr.write_balanced callee).append harguments.enclosed
  | .name _ => by
    rw [Node.write]
    rfl
  | .literal value => by
    rw [Node.write]
    exact Balanced.nil.cons value.nest_lexeme
  | .cast _ operand => by
    rw [Node.write]
    exact (Expr.write_balanced operand).enclosed.cons rfl
  | .type _ => by
    rw [Node.write]
    rfl

theorem Expr.writeAfter_balanced (opener : List Lexeme)
    (hopener : Balanced opener) :
    ∀ e : Option Expr, Balanced (Expr.writeAfter opener e)
  | some e => by
    rw [Expr.writeAfter]
    exact hopener.append (Expr.write_balanced e)
  | none => by
    rw [Expr.writeAfter]
    exact .nil

theorem Expr.writeBefore_balanced (closer : List Lexeme)
    (hcloser : Balanced closer) :
    ∀ e : Option Expr, Balanced (Expr.writeBefore closer e)
  | some e => by
    rw [Expr.writeBefore]
    exact (Expr.write_balanced e).append hcloser
  | none => by
    rw [Expr.writeBefore]
    exact .nil

theorem Expr.writeEach_balanced :
    ∀ es : List Expr, ∀ piece ∈ Expr.writeEach es, Balanced piece
  | [] => by simp [Expr.writeEach]
  | e :: rest => by
    rw [Expr.writeEach, List.forall_mem_cons]
    exact ⟨Expr.write_balanced e, Expr.writeEach_balanced rest⟩

theorem Alternative.writeEach_balanced :
    ∀ branches : List Alternative, ∀ piece ∈ Alternative.writeEach branches,
      Balanced piece
  | [] => by simp [Alternative.writeEach]
  | ⟨condition, body⟩ :: rest => by
    rw [Alternative.writeEach, Alternative.write, List.forall_mem_cons]
    exact ⟨(Expr.write_balanced condition).enclosed.append
      (Expr.write_balanced body),
      Alternative.writeEach_balanced rest⟩

theorem FunctionDef.write_balanced : ∀ d : FunctionDef, Balanced d.write
  | ⟨parameters, body⟩ => by
    have hparameters : ∀ piece ∈ parameters.map Parameter.write, Balanced piece :=
      List.forall_mem_map.mpr fun p _ => p.write_balanced
    rw [FunctionDef.write]
    exact (Balanced.separated _ rfl hparameters).enclosed.append
      (Expr.write_balanced body)

theorem Branch.writeEach_balanced :
    ∀ branches : List Branch, ∀ piece ∈ Branch.writeEach branches, Balanced piece
  | [] => by simp [Branch.writeEach]
  | ⟨some pattern, consequent, _⟩ :: rest => by
    rw [Branch.writeEach, Branch.write, List.forall_mem_cons, List.append_assoc]
    have hconsequent :=
      (Expr.write_balanced consequent).concat (x := .symbol .semicolon) rfl
    exact ⟨(Expr.write_balanced pattern).append (hconsequent.cons rfl),
      Branch.writeEach_balanced rest⟩
  | ⟨none, consequent, _⟩ :: rest => by
    have hconsequent :=
      (Expr.write_balanced consequent).cons (x := .symbol .colon) rfl
    rw [Branch.writeEach, Branch.write, List.forall_mem_cons]
    exact ⟨(hconsequent.cons rfl).concat rfl, Branch.writeEach_balanced rest⟩

theorem Binding.writeEach_balanced :
    ∀ bindings : List Binding, ∀ piece ∈ Binding.writeEach bindings, Balanced piece
  | [] => by simp [Binding.writeEach]
  | ⟨_, const, value, _⟩ :: rest => by
    have hconst : Balanced (if const then [.keyword .const] else []) := by
      cases const <;> rfl
    have hvalue := Expr.writeAfter_balanced [.symbol .assign] rfl value
    rw [Binding.writeEach, Binding.write, List.forall_mem_cons]
    exact ⟨hconst.append (hvalue.cons rfl), Binding.writeEach_balanced rest⟩

theorem Action.write_balanced : ∀ a : Action, Balanced a.write
  | .pull path => by
    have hpath : ∀ piece ∈ path.map fun n => [Lexeme.identifier n],
        Balanced piece :=
      List.forall_mem_map.mpr fun _ _ => rfl
    rw [Action.write]
    exact (Balanced.separated _ rfl hpath).cons rfl
  | .declare bindings => by
    rw [Action.write]
    exact (Balanced.separated _ rfl (Binding.writeEach_balanced bindings)).cons rfl
  | .break_ => by
    rw [Action.write]
    rfl
  | .breakIf condition => by
    rw [Action.write]
    exact (Expr.write_balanced condition).enclosed.cons rfl
  | .return_ value => by
    rw [Action.write]
    exact (Expr.writeAfter_balanced [] .nil value).cons rfl
  | .evaluate e => by
    rw [Action.write]
    exact Expr.write_balanced e

/-- A statement is written with balanced brackets. -/
theorem Stmt.write_balanced : ∀ st : Stmt, Balanced st.write
  | ⟨action, terminated, _⟩ => by
    have hend : Balanced (if terminated then [.symbol .semicolon] else []) := by
      cases terminated <;> rfl
    rw [Stmt.write]
    exact (Action.write_balanced action).append hend

theorem Stmt.writeEach_balanced :
    ∀ statements : List Stmt, ∀ piece ∈ Stmt.writeEach statements, Balanced piece
  | [] => by simp [Stmt.writeEach]
  | st :: rest => by
    rw [Stmt.writeEach, List.forall_mem_cons]
    exact ⟨Stmt.write_balanced st, Stmt.writeEach_balanced rest⟩

end

end ScriptLang
