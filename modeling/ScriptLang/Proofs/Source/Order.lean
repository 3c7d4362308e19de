import ScriptLang.Source.Position

/-!
# Order of places

Places are ordered by offset, then line, then column, which is a linear order.
Spans are made by taking the earlier or the later of two places.  A map of places
goes along with that if it turns no two of them around; two places may become one
(`Position.KeepsOrder`).
-/

namespace ScriptLang

namespace Position

/-- A place is neither before nor after itself. -/
theorem order_self (p : Position) : p.order p = .eq := by
  simp [order]

/-- Of two places, one is before the other as the other is after it. -/
theorem order_swap (a b : Position) : (a.order b).swap = b.order a := by
  simp only [order, Ordering.swap_then, Nat.compare_swap]

/-- No later than no later is no later. -/
theorem order_trans {a b c : Position} (hab : a.order b ≠ .gt)
    (hbc : b.order c ≠ .gt) : a.order c ≠ .gt := by
  simp only [order, ne_eq, Ordering.then_eq_gt, Nat.compare_eq_gt,
    Nat.compare_eq_eq] at hab hbc ⊢
  omega

/-- What is no later has no greater offset. -/
theorem offset_le_of_order {a b : Position} (h : a.order b ≠ .gt) :
    a.offset ≤ b.offset := by
  simp only [order, ne_eq, Ordering.then_eq_gt, Nat.compare_eq_gt,
    Nat.compare_eq_eq] at h
  omega

/-- Places of which neither is behind the other are the same. -/
theorem eq_of_order_ne_gt {a b : Position} (hab : a.order b ≠ .gt)
    (hba : b.order a ≠ .gt) : a = b := by
  obtain ⟨offset, line, column⟩ := a
  obtain ⟨offset', line', column'⟩ := b
  simp only [order, ne_eq, Ordering.then_eq_gt, Nat.compare_eq_gt,
    Nat.compare_eq_eq] at hab hba
  simp only [Position.mk.injEq]
  omega

/-- A map of places that turns no two of them around. -/
def KeepsOrder (φ : Position → Position) : Prop :=
  ∀ {a b : Position}, a.order b ≠ .gt → (φ a).order (φ b) ≠ .gt

variable {φ : Position → Position}

/-- A place that is behind another one stays behind it, or both go to the same
place. -/
theorem KeepsOrder.of_gt (hφ : KeepsOrder φ) {a b : Position}
    (h : a.order b = .gt) :
    (φ a).order (φ b) = .gt ∨ φ a = φ b := by
  have hba : b.order a ≠ .gt := by
    rw [← order_swap, h]
    decide
  by_cases hgt : (φ a).order (φ b) = .gt
  · exact .inl hgt
  · exact .inr (eq_of_order_ne_gt hgt (hφ hba))

/-- A map that keeps the order keeps the later of two places. -/
theorem KeepsOrder.later (hφ : KeepsOrder φ) (a b : Position) :
    φ (a.later b) = (φ a).later (φ b) := by
  unfold Position.later
  by_cases h : a.order b = .gt
  · rw [if_pos h]
    rcases hφ.of_gt h with hgt | heq
    · rw [if_pos hgt]
    · rw [heq, ite_self]
  · rw [if_neg h, if_neg (hφ h)]

/-- A map that keeps the order keeps the earlier of two places. -/
theorem KeepsOrder.earlier (hφ : KeepsOrder φ) (a b : Position) :
    φ (a.earlier b) = (φ a).earlier (φ b) := by
  unfold Position.earlier
  by_cases h : a.order b = .gt
  · rw [if_pos h]
    rcases hφ.of_gt h with hgt | heq
    · rw [if_pos hgt]
    · rw [heq, ite_self]
  · rw [if_neg h, if_neg (hφ h)]

end Position

end ScriptLang
