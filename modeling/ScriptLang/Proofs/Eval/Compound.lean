import ScriptLang.Proofs.Eval.Limits
import ScriptLang.Proofs.Eval.Scoping

/-!
# Compound assignment

Both `x += e` and `x = x + e` read `x`, evaluate `e`, add, and assign the sum; but
the first one evaluates `e` before it reads `x`, and the second one after that.  A
name that is bound can be read before an expression as well as behind it, as long as
the expression leaves the content of its variable alone (`Eval.access_comm`):
evaluation changes neither the stack nor the frames, so the name means the same
variable all along.  Then the two forms end alike, however they end, and leave the
same machine behind (`Expr.compound_expanded`).

The two forms differ by a few steps, and `Expr.Ends` does not count steps.
-/

namespace ScriptLang

/-! ## Reading a name earlier -/

namespace Eval

variable {m : Machine} {x : String} {cell : Nat}

/-- A name can be read before a computation as well as behind it, if that keeps the
frames and the content of the variable that the name means. -/
theorem access_comm {p : Eval α} (next : Value → α → Eval β)
    (hgiven : m.store.Given m.stack)
    (hbound : m.store.resolve? x m.stack = some cell) (hkept : m.Kept (p m).2)
    (hcontent : ∀ a m₁, p m = (.value a, m₁) →
      (m₁.store.cell cell).value = (m.store.cell cell).value) :
    (p >>= fun a => access x >>= fun old => next old a) m =
      (access x >>= fun old => p >>= next old) m := by
  show andThen p (fun a => andThen (access x) fun old => next old a) m =
    andThen (access x) (fun old => andThen p (next old)) m
  have hread := access_eq hbound
  simp only [andThen, hread]
  cases hp : p m with
  | mk outcome m₁ =>
      rw [hp] at hkept
      cases outcome with
      | value a =>
          have hbehind := access_eq ((hkept.resolve?_eq hgiven x).trans hbound)
          simp only [hbehind, hcontent a m₁ hp]
      | _ => rfl

/-! ## The two forms -/

variable {g : Setting} {o base : Operator} {e : Expr}

/-- Assigns the result of an operation, which is the value as well. -/
def storing (x : String) (result : Except Fault Value) : Eval Value := do
  let value ← lift result
  update (Store.assign x value)
  return value

/-- The operator behind a compound assignment evaluates both operands from left to
right. -/
theorem binary_base (ev : Expr → Eval Value) (g : Setting)
    (hbase : o.compoundBase? = some base) (left right : Expr) :
    binary ev g base left right = ev left >>= fun a => ev right >>=
      fun b => lift (a.arithmetic base b) := by
  cases o <;> cases hbase <;> rfl

/-- A compound assignment reads the name when its operand has been evaluated. -/
theorem evaluate_compound (hbase : o.compoundBase? = some base) (place span : Span)
    (fuel : Nat) :
    evaluate g (fuel + 1) ⟨.binary o ⟨.name x, place⟩ e, span⟩ =
      evaluate g fuel e >>= fun v => access x >>= fun old =>
        storing x (old.arithmetic base v) := by
  have hassigns : o.isAssignment = true := by
    rw [Operator.isAssignment, hbase, Option.isSome_some, Bool.or_true]
  show (if o.isAssignment then assign (evaluate g fuel) ⟨.name x, place⟩ o e
    else _) = _
  rw [if_pos hassigns, assign]
  simp only [hbase, storing]

/-- The expansion of a compound assignment reads the name before that. -/
theorem evaluate_expansion (hbase : o.compoundBase? = some base)
    (place span place' span' : Span) (fuel : Nat) :
    evaluate g (fuel + 3) ⟨.binary .assign ⟨.name x, place⟩
      ⟨.binary base ⟨.name x, place'⟩ e, span'⟩, span⟩ =
      access x >>= fun old => evaluate g (fuel + 1) e >>=
        fun v => storing x (old.arithmetic base v) := by
  show (binary (evaluate g (fuel + 1)) g base ⟨.name x, place'⟩ e >>=
    fun v => storing x (.ok v)) = _
  rw [binary_base _ g hbase]
  simp only [bind_assoc, storing]
  rfl

end Eval

namespace Expr

open Eval

variable {g : Setting} {o base : Operator} {x : String} {cell : Nat} {e e' : Expr}
  {m : Machine}

/-- On a machine whose visible frames exist, a compound assignment `x op= e` to a
name that is bound ends as its expansion `x = x op e` does, where `e` may stand in
parentheses, if `e` leaves the content of the variable that `x` means as it is
whenever it ends with a value.  The two end with the same value, on the same way out
of a loop or a function, with the same fault or crash, or not at all, and leave the
same machine behind.

Functions of the host that `e` calls are procedures that touch no frame and no cell
(`HostProcedure.detached`). -/
theorem compound_expanded (hgiven : m.store.Given m.stack)
    (hbase : o.compoundBase? = some base)
    (hbound : m.store.resolve? x m.stack = some cell)
    (hkept : ∀ v m₁, e.Yields g m v m₁ →
      (m₁.store.cell cell).value = (m.store.cell cell).value)
    (hoperand : e' = e ∨ e'.node = .grouping e) (s₁ s₂ s₃ s₄ s₅ s₆ : Span)
    (outcome : Outcome Value) (m' : Machine) :
    Ends g ⟨.binary o ⟨.name x, s₁⟩ e, s₂⟩ m outcome m' ↔
      Ends g ⟨.binary .assign ⟨.name x, s₃⟩ ⟨.binary base ⟨.name x, s₄⟩ e', s₅⟩, s₆⟩
        m outcome m' := by
  -- Parentheses take one more step.
  obtain ⟨extra, hextra⟩ : ∃ extra, ∀ fuel, evaluate g (fuel + extra) e' =
      evaluate g fuel e := by
    rcases hoperand with rfl | hgrouping
    · exact ⟨0, fun fuel => rfl⟩
    · obtain ⟨node, span⟩ := e'
      cases hgrouping
      exact ⟨1, fun fuel => rfl⟩
  apply ends_iff_of_eq (i := 2) (j := extra + 3)
  intro fuel
  have hsame :=
    access_comm (fun old v => storing x (old.arithmetic base v)) hgiven hbound
    (evaluate_kept g (fuel + 1) e m) fun v m₁ hrun => hkept v m₁ ⟨fuel + 1, hrun⟩
  rw [← Nat.add_assoc, evaluate_compound hbase, hsame, evaluate_expansion hbase,
    Nat.add_right_comm, hextra]

/-- A block that assigns integers to `x` one after the other, and ends with the sum
of `x` and one. -/
def reassigning (is : List UInt64) : Expr :=
  let x : Expr := ⟨.name "x", default⟩
  let literal (i : UInt64) : Expr := ⟨.literal (.integer i), default⟩
  let assign (i : UInt64) : Stmt :=
    ⟨.evaluate ⟨.binary .assign x (literal i), default⟩, true, default⟩
  ⟨.block (is.map assign ++
    [⟨.evaluate ⟨.binary .add x (literal 1), default⟩, false, default⟩]), default⟩

/-- With `x` at three, `x -= { x = 9; x = 3; x + 1 }` and its expansion: the block
changes `x` and changes it back. -/
theorem restoringOperand_expanded :
    let g : Setting := ⟨8, #[], []⟩
    let m : Machine :=
      ⟨⟨#[⟨.int 3, false⟩], #[⟨.block, [("x", 0)]⟩], [0]⟩, [0], 0, 0, {}⟩
    let x : Expr := ⟨.name "x", default⟩
    let e := reassigning [9, 3]
    let short : Expr := ⟨.binary .subtractAssign x e, default⟩
    let grouped : Expr := ⟨.grouping e, default⟩
    let long : Expr :=
      ⟨.binary .assign x ⟨.binary .subtract x grouped, default⟩, default⟩
    m.store.Given m.stack ∧
      Operator.compoundBase? .subtractAssign = some .subtract ∧
      m.store.resolve? "x" m.stack = some 0 ∧ grouped.node = .grouping e ∧
      (∀ v m₁, e.Yields g m v m₁ →
        (m₁.store.cell 0).value = (m.store.cell 0).value) ∧
      ∃ m', Ends g short m (.value (.int (-1))) m' ∧
        Ends g long m (.value (.int (-1))) m' ∧
        (m'.store.cell 0).value = .int (-1) := by
  intro g m x e short grouped long
  have hgiven : m.store.Given m.stack := fun index hindex => by
    rw [List.mem_singleton.mp hindex]
    decide
  have hkept : ∀ v m₁, e.Yields g m v m₁ →
      (m₁.store.cell 0).value = (m.store.cell 0).value := by
    intro v m₁ h
    obtain ⟨w, hblock⟩ := yields_of_isValue g 6 e m rfl
    obtain ⟨-, rfl⟩ := h.ends.unique hblock.ends
    rfl
  have hoperand : grouped = e ∨ grouped.node = .grouping e := .inr rfl
  have hshort : Ends g short m (.value (.int (-1))) (evaluate g 7 short m).2 :=
    ⟨7, rfl, nofun⟩
  have hlong :=
    (compound_expanded hgiven rfl rfl hkept hoperand _ _ default default default
      default _ _).mp hshort
  exact ⟨hgiven, rfl, rfl, rfl, hkept, _, hshort, hlong, rfl⟩

/-- Where the operand changes the variable for good, the two forms differ. -/
example :
    let g : Setting := ⟨8, #[], []⟩
    let m : Machine :=
      ⟨⟨#[⟨.int 3, false⟩], #[⟨.block, [("x", 0)]⟩], [0]⟩, [0], 0, 0, {}⟩
    let x : Expr := ⟨.name "x", default⟩
    let e := reassigning [9]
    (evaluate g 9 ⟨.binary .addAssign x e, default⟩ m).1 = .value (.int 19) ∧
      (evaluate g 9 ⟨.binary .assign x ⟨.binary .add x e, default⟩, default⟩ m).1 =
        .value (.int 13) :=
  ⟨rfl, rfl⟩

end Expr

end ScriptLang
