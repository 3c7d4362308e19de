import ScriptLang.Proofs.Tree.Ladder

/-!
# Operator expressions

A formula is made of literals, names, groupings, casts, calls, members, signs and
the binary operators of the ladder.  Blocks, conditionals, loops, functions and
patterns are none, and a type stands in a formula only as the right operand of a
type test.

`Expr.Fits k` adds to that that all operators have operands that they can take and
that the formula as a whole stands on the rung `k` or higher, which is what a parser
of that rung should find.
-/

namespace ScriptLang

/-! ## Operators -/

/-- Every operator once. -/
def Operator.all : List Operator :=
  [.add, .subtract, .multiply, .divide, .remainder, .exponent, .concatenate, .plus,
    .negate, .not,
   .less, .lessEqual, .greater, .greaterEqual, .equal, .notEqual, .and, .or,
     .nullCoalescing,
   .nullsafePipe, .is, .isNot, .assign, .addAssign, .subtractAssign,
     .multiplyAssign, .divideAssign,
   .remainderAssign, .access, .matchLess, .matchLessEqual, .matchGreater,
     .matchGreaterEqual, .matchEqual,
   .matchNotEqual, .matchIs, .matchIsNot, .matchAnd, .matchOr]

theorem Operator.mem_all (o : Operator) : o ∈ all := by
  cases o <;> decide

instance (P : Operator → Prop) [DecidablePred P] : Decidable (∀ o, P o) :=
  decidable_of_iff (∀ o ∈ Operator.all, P o)
    ⟨fun h o => h o o.mem_all, fun h o _ => h o⟩

/-- Whether an operator joins two formulas. -/
def Operator.isBinary (o : Operator) : Bool :=
  o.isAssignment || (o.isLeftAssociative && 4 ≤ o.rung) || o =
    .exponent || o = .access

theorem Operator.joins_assignment_iff {o : Operator} (h : o.isAssignment = true)
    {left right : Expr} :
    o.Joins left right ↔ (∃ name, left.node = .name name) ∧ 3 ≤ right.rung := by
  cases o <;> first | exact Iff.rfl | exact absurd h (by decide)

theorem Operator.governs_sign (o : Operator) (h : o.rung = 13) {operand : Expr}
    (hoperand : o.Governs operand) : 13 ≤ operand.rung := by
  cases o <;> first | exact hoperand | exact absurd h (by decide)

/-- Above the signs, a left operand is an operand with its calls and members. -/
theorem Operator.left_of_rung (o : Operator) (h : 14 ≤ o.rung) {left right : Expr}
    (hjoins : o.Joins left right) : 15 ≤ left.rung := by
  cases o <;> first | exact hjoins.1 | exact absurd h (by decide)

/-! ## Formulas -/

/-- The operator expressions whose casts are all to types of a given kind. -/
inductive Expr.IsFormula (castable : TypeName → Prop) : Expr → Prop
  | literal {value : Literal} {span : Span} :
      IsFormula castable ⟨.literal value, span⟩
  | name {text : String} {span : Span} : IsFormula castable ⟨.name text, span⟩
  | grouping {inner : Expr} {span : Span} :
      IsFormula castable inner → IsFormula castable ⟨.grouping inner, span⟩
  | cast {target : TypeName} {operand : Expr} {span : Span} :
      castable target → IsFormula castable operand →
        IsFormula castable ⟨.cast target operand, span⟩
  | call {callee : Expr} {arguments : List Expr} {span : Span} :
      IsFormula castable callee → (∀ e ∈ arguments, IsFormula castable e) →
      IsFormula castable ⟨.call callee arguments, span⟩
  | sign {operator : Operator} {operand : Expr} {span : Span} :
      operator.rung = 13 → IsFormula castable operand →
        IsFormula castable ⟨.unary operator operand, span⟩
  | typeTest {operator : Operator} {left : Expr} {target : TypeName}
      {place span : Span} :
      operator.rung = 8 → IsFormula castable left →
      IsFormula castable ⟨.binary operator left ⟨.type target, place⟩, span⟩
  | binary {operator : Operator} {left right : Expr} {span : Span} :
      operator.isBinary = true → IsFormula castable left →
      IsFormula castable right →
      IsFormula castable ⟨.binary operator left right, span⟩

/-- A formula that stands on a rung or higher and respects the ladder.  No cast in
it is to null: a parenthesis behind the literal null opens the arguments of a
call. -/
structure Expr.Fits (k : Nat) (e : Expr) : Prop where
  formula : e.IsFormula (· ≠ .null)
  respects : e.Respects
  rung_le : k ≤ e.rung

theorem Operator.three_le_rung : ∀ o : Operator, o.isBinary = true → 3 ≤ o.rung :=
  by decide

theorem Operator.rung_lt : ∀ o : Operator, o.rung < 16 := by decide

theorem Operator.isLeftAssociative_of_rung :
    ∀ o : Operator, o.isBinary = true → 4 ≤ o.rung → o.rung ≤ 12 →
      o.isLeftAssociative = true ∧ o.rung ≠ 8 := by decide

theorem Operator.isAssignment_of_rung :
    ∀ o : Operator, o.rung = 3 → o.isAssignment = true := by decide

theorem Operator.eq_exponent_of_rung :
    ∀ o : Operator, o.rung = 14 → o = .exponent := by decide

theorem Operator.eq_access_of_rung : ∀ o : Operator, o.rung = 15 → o = .access :=
  by decide

theorem Operator.rung_ne_sign : ∀ o : Operator, o.isBinary = true → o.rung ≠ 13 :=
  by decide

theorem Operator.isTest_of_rung :
    ∀ o : Operator, o.rung = 8 → o = .is ∨ o = .isNot := by decide

/-- No formula stands on a rung of patterns. -/
theorem Expr.IsFormula.three_le_rung {castable : TypeName → Prop} {e : Expr}
    (h : e.IsFormula castable) :
    3 ≤ e.rung := by
  cases h with
  | sign hrung _ => exact Nat.le_trans (by decide) (Nat.le_of_eq hrung.symm)
  | typeTest hrung _ => exact Nat.le_trans (by decide) (Nat.le_of_eq hrung.symm)
  | binary hbinary _ _ => exact Operator.three_le_rung _ hbinary
  | _ => simp [Expr.rung]

theorem Expr.Fits.higher {k : Nat} {e : Expr} (h : e.Fits k)
    (hne : e.rung ≠ k) : e.Fits (k + 1) :=
  ⟨h.formula, h.respects, Nat.lt_of_le_of_ne h.rung_le hne.symm⟩

/-! ## What stands on a rung -/

namespace Expr.Fits

/-- On the rungs of left-associative operators stand only operations. -/
theorem leftAssociative {k : Nat} {e : Expr} (h : e.Fits k) (hrung : e.rung = k)
    (hfour : 4 ≤ k) (htwelve : k ≤ 12) (hne : k ≠ 8) :
    ∃ o left right span, e = ⟨.binary o left right, span⟩ ∧
      o.isLeftAssociative = true ∧ o.rung = k ∧
      left.Fits k ∧ right.Fits (k + 1) := by
  obtain ⟨hformula, hrespects, _⟩ := h
  cases hformula with
  | sign hsign _ => exact absurd (hsign.symm.trans hrung) (by omega)
  | typeTest htest _ => exact absurd (htest.symm.trans hrung) (by omega)
  | @binary o left right span hbinary hleft hright =>
      have ho : o.rung = k := hrung
      obtain ⟨hassoc, _⟩ :=
        o.isLeftAssociative_of_rung hbinary (ho ▸ hfour) (ho ▸ htwelve)
      cases hrespects with
      | binary hjoins hleft' hright' =>
          obtain ⟨hle, hlt⟩ := (Operator.joins_iff hassoc left right).mp hjoins
          rw [ho] at hle hlt
          exact ⟨o, left, right, span, rfl, hassoc, ho, ⟨hleft, hleft', hle⟩,
            ⟨hright, hright', hlt⟩⟩
  | _ => exact absurd hrung (by simp only [Expr.rung]; omega)

/-- On the lowest rung stand assignments to names. -/
theorem assignment {e : Expr} (h : e.Fits 3) (hrung : e.rung = 3) :
    ∃ o name place right span, e = ⟨.binary o ⟨.name name, place⟩ right, span⟩ ∧
      o.isAssignment = true ∧
      right.Fits 3 := by
  obtain ⟨hformula, hrespects, _⟩ := h
  cases hformula with
  | sign hsign _ => exact absurd (hsign.symm.trans hrung) (by decide)
  | typeTest htest _ => exact absurd (htest.symm.trans hrung) (by decide)
  | @binary o left right span hbinary hleft hright =>
      have hassign := o.isAssignment_of_rung hrung
      cases hrespects with
      | binary hjoins _ hright' =>
          obtain ⟨⟨name, hname⟩, hle⟩ : (∃ name, left.node = .name name) ∧
              3 ≤ right.rung := by
            exact (Operator.joins_assignment_iff hassign).mp hjoins
          obtain ⟨node, place⟩ := left
          cases hname
          exact ⟨o, name, place, right, span, rfl, hassign, hright, hright', hle⟩
  | _ => exact absurd hrung (by simp [Expr.rung])

/-- On the rung of type tests stands nothing else. -/
theorem typeTest {e : Expr} (h : e.Fits 8) (hrung : e.rung = 8) :
    ∃ o left target place span, e = ⟨.binary o left ⟨.type target, place⟩, span⟩ ∧
      (o = .is ∨ o = .isNot) ∧ left.Fits 8 := by
  obtain ⟨hformula, hrespects, _⟩ := h
  cases hformula with
  | sign hsign _ => exact absurd (hsign.symm.trans hrung) (by decide)
  | @typeTest o left target place span htest hleft =>
      have ho := o.isTest_of_rung htest
      cases hrespects with
      | binary hjoins hleft' _ =>
          have hle : 8 ≤ left.rung := by
            rcases ho with rfl | rfl <;> exact hjoins.1
          exact ⟨o, left, target, place, span, rfl, ho, hleft, hleft', hle⟩
  | @binary o left right span hbinary _ _ =>
      have ho : o.rung = 8 := hrung
      obtain ⟨_, hne⟩ := o.isLeftAssociative_of_rung hbinary (by omega) (by omega)
      exact absurd ho hne
  | _ => exact absurd hrung (by simp [Expr.rung])

/-- On the rung of signs stand operands behind a sign. -/
theorem sign {e : Expr} (h : e.Fits 13) (hrung : e.rung = 13) :
    ∃ o operand span, e = ⟨.unary o operand, span⟩ ∧ o.rung = 13 ∧
      operand.Fits 13 := by
  obtain ⟨hformula, hrespects, _⟩ := h
  cases hformula with
  | @sign o operand span hsign hoperand =>
      cases hrespects with
      | unary hgoverns hoperand' =>
          exact ⟨o, operand, span, rfl, hsign, hoperand, hoperand',
            o.governs_sign hsign hgoverns⟩
  | typeTest htest _ => exact absurd (htest.symm.trans hrung) (by decide)
  | binary hbinary _ _ => exact absurd hrung (Operator.rung_ne_sign _ hbinary)
  | _ => exact absurd hrung (by simp [Expr.rung])

/-- On the rung of `^` stand powers. -/
theorem power {e : Expr} (h : e.Fits 14) (hrung : e.rung = 14) :
    ∃ base exponent span, e = ⟨.binary .exponent base exponent, span⟩ ∧
      base.Fits 15 ∧
      exponent.Fits 13 := by
  obtain ⟨hformula, hrespects, _⟩ := h
  cases hformula with
  | sign hsign _ => exact absurd (hsign.symm.trans hrung) (by decide)
  | typeTest htest _ => exact absurd (htest.symm.trans hrung) (by decide)
  | @binary o left right span _ hleft hright =>
      obtain rfl := o.eq_exponent_of_rung hrung
      cases hrespects with
      | binary hjoins hleft' hright' =>
          exact ⟨left, right, span, rfl, ⟨hleft, hleft', hjoins.1⟩,
            ⟨hright, hright', hjoins.2⟩⟩
  | _ => exact absurd hrung (by simp [Expr.rung])

/-- On the rung of calls and members stands nothing else. -/
theorem link {e : Expr} (h : e.Fits 15) (hrung : e.rung = 15) :
    (∃ left name place span, e = ⟨.binary .access left ⟨.name name, place⟩, span⟩ ∧
      left.Fits 15) ∨
      ∃ callee arguments span, e = ⟨.call callee arguments, span⟩ ∧ callee.Fits 15 ∧
        ∀ a ∈ arguments, a.Fits 3 := by
  obtain ⟨hformula, hrespects, _⟩ := h
  cases hformula with
  | sign hsign _ => exact absurd (hsign.symm.trans hrung) (by decide)
  | typeTest htest _ => exact absurd (htest.symm.trans hrung) (by decide)
  | @binary o left right span _ hleft _ =>
      obtain rfl := o.eq_access_of_rung hrung
      cases hrespects with
      | binary hjoins hleft' _ =>
          obtain ⟨hle, name, hname⟩ := hjoins
          obtain ⟨node, place⟩ := right
          cases hname
          exact .inl ⟨left, name, place, span, rfl, hleft, hleft', hle⟩
  | @call callee arguments span hcallee harguments =>
      cases hrespects with
      | call hle hcallee' harguments' =>
          refine .inr ⟨callee, arguments, span, rfl, ⟨hcallee, hcallee', hle⟩, ?_⟩
          intro a ha
          exact ⟨harguments a ha, harguments' a ha, (harguments a ha).three_le_rung⟩
  | _ => exact absurd hrung (by simp [Expr.rung])

/-- On the highest rung stands what has no operators. -/
theorem primary {e : Expr} (h : e.Fits 16) :
    (∃ value span, e = ⟨.literal value, span⟩) ∨
      (∃ text span, e = ⟨.name text, span⟩) ∨
      (∃ inner span, e = ⟨.grouping inner, span⟩ ∧ inner.Fits 3) ∨
      ∃ target operand span, e = ⟨.cast target operand, span⟩ ∧ target ≠ .null ∧
        operand.Fits 3 := by
  obtain ⟨hformula, hrespects, hle⟩ := h
  cases hformula with
  | @literal value span => exact .inl ⟨value, span, rfl⟩
  | @name text span => exact .inr (.inl ⟨text, span, rfl⟩)
  | @grouping inner span hinner =>
      cases hrespects with
      | grouping hinner' =>
          exact .inr
            (.inr (.inl ⟨inner, span, rfl, hinner, hinner', hinner.three_le_rung⟩))
  | @cast target operand span htarget hoperand =>
      cases hrespects with
      | cast hoperand' =>
          exact .inr (.inr (.inr
            ⟨target, operand, span, rfl, htarget, hoperand, hoperand',
              hoperand.three_le_rung⟩))
  | call _ _ => exact absurd hle (Nat.not_le_of_lt (Nat.lt_succ_self 15))
  | @sign o _ _ _ _ => exact absurd hle (Nat.not_le_of_lt o.rung_lt)
  | @typeTest o _ _ _ _ _ _ => exact absurd hle (Nat.not_le_of_lt o.rung_lt)
  | @binary o _ _ _ _ _ _ => exact absurd hle (Nat.not_le_of_lt o.rung_lt)

end Expr.Fits

end ScriptLang
