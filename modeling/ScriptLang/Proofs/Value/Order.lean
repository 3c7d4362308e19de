import Mathlib
import ScriptLang.Proofs.Number.Order
import ScriptLang.Value.Operation

/-!
# Comparisons of values

Six operators compare values of eight kinds.  What they answer depends on how the
two values stand to each other (`Value.standing`) and, for equality, on whether one
of them is null.  So the laws of comparison are laws of `standing`: it turns around
with its operands (`standing_swap`), it agrees with equality of values
(`same_iff_of_ordered`, `same_of_foreign`), and an order is missing exactly for the
not-a-number (`order_eq_none_iff`).

`Value.compare_coherent` puts them together: the answers of the six operators fit
each other for any two values.
-/

namespace ScriptLang

/-- The comparison that says the same of its operands the other way round. -/
def Operator.mirrored : Operator → Operator
  | .less => .greater
  | .lessEqual => .greaterEqual
  | .greater => .less
  | .greaterEqual => .lessEqual
  | o => o

namespace Value

variable {a b : Value} {order : Option Ordering}

/-- The floating-point value that stands for no number. -/
def IsNaN (v : Value) : Prop := ∃ x : Float, v = .float x ∧ x.isNaN = true

/-! ## How two values stand to each other -/

/-- The standing of the same two values the other way round. -/
def Standing.swap : Standing → Standing
  | .ordered order => .ordered (order.map Ordering.swap)
  | .distinct => .distinct
  | .foreign => .foreign

theorem standing_swap (a b : Value) : (standing a b).swap = standing b a := by
  cases a <;> cases b
  case int.int i j =>
    exact congrArg (fun order => Standing.ordered (some order))
      Std.OrientedOrd.eq_swap.symm
  case string.string s t =>
    exact congrArg (fun order => Standing.ordered (some order))
      Std.OrientedOrd.eq_swap.symm
  case int.float i x => exact congrArg Standing.ordered (Number.order?_swap _ _)
  case float.int x i => exact congrArg Standing.ordered (Number.order?_swap _ _)
  case float.float x y => exact congrArg Standing.ordered (Number.order?_swap _ _)
  all_goals rfl

/-- Where there is an order, equal values are those with the order `eq`. -/
theorem same_iff_of_ordered (h : standing a b = .ordered order) :
    a.same b = true ↔ order = some .eq := by
  cases a <;> cases b
  case int.int i j =>
    obtain rfl := Standing.ordered.inj h
    rw [Option.some_inj, Std.compare_eq_iff_eq]
    exact beq_iff_eq
  case string.string s t =>
    obtain rfl := Standing.ordered.inj h
    rw [Option.some_inj, Std.compare_eq_iff_eq]
    exact beq_iff_eq
  case float.int x i =>
    obtain rfl := Standing.ordered.inj h
    rw [Number.order?_eq_some_eq_iff, BEq.comm]
    rfl
  case int.float | float.float =>
    obtain rfl := Standing.ordered.inj h
    exact (Number.order?_eq_some_eq_iff _ _).symm
  all_goals cases h

/-- Values that cannot be compared are not equal. -/
theorem same_of_foreign (h : standing a b = .foreign) : a.same b = false := by
  cases a <;> cases b <;> first | rfl | cases h

theorem same_of_isNull (h : (a.isNull || b.isNull) = true) :
    a.same b = (a.isNull && b.isNull) := by
  cases a <;> cases b <;> first | rfl | cases h

theorem same_comm (a b : Value) : a.same b = b.same a := by
  cases a <;> cases b
  case float.float x y => exact BEq.comm
  case float.int | int.float => rfl
  all_goals first | rfl | exact Bool.beq_comm

theorem isNull_of_ordered (h : standing a b = .ordered order) :
    (a.isNull || b.isNull) = false := by
  cases a <;> cases b <;> first | rfl | cases h

theorem isNaN_float_iff (x : Float) : (Value.float x).IsNaN ↔ x.isNaN = true :=
  ⟨fun ⟨_, hx, hnan⟩ => Value.float.inj hx ▸ hnan, fun hnan => ⟨x, rfl, hnan⟩⟩

theorem not_isNaN_int (i : Int64) : ¬ (Value.int i).IsNaN :=
  fun ⟨_, hx, _⟩ => Value.noConfusion hx

theorem not_isNaN_string (s : String) : ¬ (Value.string s).IsNaN :=
  fun ⟨_, hx, _⟩ => Value.noConfusion hx

/-- Where there is an order, it is missing if one of the values is the
not-a-number. -/
theorem order_eq_none_iff (h : standing a b = .ordered order) :
    order = none ↔ a.IsNaN ∨ b.IsNaN := by
  cases a <;> cases b
  case int.int i j =>
    obtain rfl := Standing.ordered.inj h
    simp [not_isNaN_int]
  case string.string s t =>
    obtain rfl := Standing.ordered.inj h
    simp [not_isNaN_string]
  case int.float | float.int | float.float =>
    obtain rfl := Standing.ordered.inj h
    simp only [Number.order?_eq_none_iff, Number.isNaN_ofInt64, isNaN_float_iff,
      not_isNaN_int, Bool.false_eq_true, false_or, or_false]
  all_goals cases h

/-! ## The answers of the operators -/

/-- A comparison answers the same as its mirror image with the operands the other
way round. -/
theorem compare_mirrored (o : Operator) (a b : Value) :
    compare o.mirrored b a = compare o a b := by
  have hsatisfies : ∀ order : Ordering, satisfies o.mirrored order.swap =
      satisfies o order := by
    intro order
    cases o <;> cases order <;> rfl
  have hequal : decide (o.mirrored = .equal) = decide (o = .equal) := by
    cases o <;> rfl
  have hnotEqual : decide (o.mirrored = .notEqual) = decide (o = .notEqual) := by
    cases o <;> rfl
  unfold compare
  simp only [hequal, hnotEqual, Bool.or_comm b.isNull, Bool.and_comm b.isNull,
    same_comm b, ← standing_swap a b]
  cases standing a b with
  | ordered order => cases order <;> simp [Standing.swap, hsatisfies]
  | distinct | foreign => rfl

/-- The answer of a comparison of values that have an order, or would have one if
they were numbers. -/
theorem compare_of_ordered (h : standing a b = .ordered order) (o : Operator) :
    compare o a b = .bool (order.elim (decide (o = .notEqual)) (satisfies o)) := by
  unfold compare
  dsimp only
  rw [isNull_of_ordered h, Bool.and_false, if_neg Bool.false_ne_true, h]
  cases order <;> rfl

/-- Equality is not decided for values that cannot be compared.  Otherwise its
answer is whether the values are equal, and that of inequality is the opposite. -/
theorem compare_equality (a b : Value) :
    (compare .equal a b = .null ∧ compare .notEqual a b = .null ∧
      a.same b = false) ∨
      (compare .equal a b = .bool (a.same b) ∧
        compare .notEqual a b = .bool (!a.same b)) := by
  by_cases hnull : (a.isNull || b.isNull) = true
  · right
    simp [compare, hnull, same_of_isNull hnull]
  · cases hstanding : standing a b with
    | ordered order =>
        right
        have hsame : a.same b = order.elim false (satisfies .equal) := by
          rw [Bool.eq_iff_iff, same_iff_of_ordered hstanding]
          cases order with
          | none => simp
          | some order => cases order <;> simp [satisfies]
        rw [compare_of_ordered hstanding, compare_of_ordered hstanding, hsame]
        cases order with
        | none => exact ⟨rfl, rfl⟩
        | some order => cases order <;> exact ⟨rfl, rfl⟩
    | distinct =>
        right
        simp [compare, hnull, hstanding]
    | foreign =>
        left
        simp [compare, hnull, hstanding, same_of_foreign hstanding]

/-- Only values that have an order, or would have one if they were numbers, are one
less than the other or not. -/
theorem ordered_of_less (h : compare .less a b ≠ .null) :
    ∃ order, standing a b = .ordered order := by
  cases hstanding : standing a b with
  | ordered order => exact ⟨order, rfl⟩
  | distinct | foreign => simp [compare, hstanding] at h

/-- The comparisons of two values fit each other.  Equality is equality of values,
and inequality its opposite; a comparison says the same as its mirror image; and
where one value can be less than the other, exactly one of less, equal and greater
holds, or none for the not-a-number. -/
theorem compare_coherent (a b : Value) :
    (compare .equal a b = .bool true ↔ a.same b = true) ∧
    (compare .equal a b = .null ∧ compare .notEqual a b = .null ∨
      ∃ answer, compare .equal a b = .bool answer ∧
        compare .notEqual a b = .bool (!answer)) ∧
    compare .equal a b = compare .equal b a ∧
    compare .less a b = compare .greater b a ∧
    compare .lessEqual a b = compare .greaterEqual b a ∧
    (compare .less a b ≠ .null →
      (compare .lessEqual a b = .bool true ↔ compare .less a b = .bool true ∨
        compare .equal a b = .bool true) ∧
      (a.IsNaN ∨ b.IsNaN → ∀ o ∈ [Operator.less, .equal, .greater],
        compare o a b ≠ .bool true) ∧
      (¬ (a.IsNaN ∨ b.IsNaN) → ∃! o, o ∈ [Operator.less, .equal, .greater] ∧
        compare o a b = .bool true)) := by
  refine ⟨?_, ?_, (compare_mirrored .equal a b).symm,
    (compare_mirrored .less a b).symm,
    (compare_mirrored .lessEqual a b).symm, fun hless => ?_⟩
  · rcases compare_equality a b with ⟨hequal, -, hsame⟩ | ⟨hequal, -⟩
    · simp [hequal, hsame]
    · simp [hequal]
  · rcases compare_equality a b with ⟨hequal, hnotEqual, -⟩ | ⟨hequal, hnotEqual⟩
    · exact .inl ⟨hequal, hnotEqual⟩
    · exact .inr ⟨_, hequal, hnotEqual⟩
  · obtain ⟨order, hstanding⟩ := ordered_of_less hless
    rw [← order_eq_none_iff hstanding]
    simp only [compare_of_ordered hstanding]
    cases order with
    | none => simp
    | some order => cases order <;> simp [satisfies, ExistsUnique]

/-- An integer that is one more than `2 ^ 53` is rounded to it for the comparison
with a floating-point number, so the two are equal.  The not-a-number is neither
less than an integer nor equal to it nor greater. -/
theorem roundedInteger_coherent :
    let a : Value := .int 9007199254740993
    let b : Value := .float (.ofBits 0x4340000000000000)
    let nan : Value := .float (.ofBits 0x7ff8000000000000)
    (compare .less a b ≠ .null ∧ ¬ (a.IsNaN ∨ b.IsNaN) ∧ a.same b = true ∧
      compare .equal a b = .bool true ∧
      compare .lessEqual a b = .bool true ∧
      ∃! o, o ∈ [Operator.less, .equal, .greater] ∧ compare o a b = .bool true) ∧
    compare .less a nan ≠ .null ∧ nan.IsNaN ∧
      ∀ o ∈ [Operator.less, .equal, .greater], compare o a nan ≠ .bool true := by
  intro a b nan
  have hstanding : standing a b = .ordered (some .eq) := by decide +kernel
  have hless : compare .less a b ≠ .null := by
    rw [compare_of_ordered hstanding]
    nofun
  have hnumbers : ¬ (a.IsNaN ∨ b.IsNaN) :=
    fun h => Option.some_ne_none _ ((order_eq_none_iff hstanding).mpr h)
  have hsame : a.same b = true := by decide +kernel
  obtain ⟨hequal, -, -, -, -, hcoherent⟩ := compare_coherent a b
  obtain ⟨hlessEqual, -, hone⟩ := hcoherent hless
  have hnan : nan.IsNaN := ⟨_, rfl, by decide +kernel⟩
  have hstandingNan : standing a nan = .ordered none := by decide +kernel
  have hlessNan : compare .less a nan ≠ .null := by
    rw [compare_of_ordered hstandingNan]
    nofun
  obtain ⟨-, -, -, -, -, hcoherentNan⟩ := compare_coherent a nan
  exact ⟨⟨hless, hnumbers, hsame, hequal.mpr hsame,
    hlessEqual.mpr (.inr (hequal.mpr hsame)), hone hnumbers⟩,
    hlessNan, hnan, (hcoherentNan hlessNan).2.1 (.inr hnan)⟩

end Value

end ScriptLang
