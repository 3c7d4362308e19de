import Mathlib.NumberTheory.Multiplicity
import Mathlib.RingTheory.Int.Basic
import ScriptLang.Value.Operation

/-!
# Integer powers

A power of integers is computed by repeated squaring, where every product wraps
around at 64 bits.  Since wrapping around goes along with products, the result is
the true power wrapped around (`Number.wrappingPower_ofInt`), but only for the
exponent that is looked at: one above `Value.exponentCap` is taken for the cap.

`Value.arithmetic_exponent` says for which operands this makes no difference.  Above
the cap, the powers of an even number are zero either way.  Those of an odd number
differ by the factor `a ^ (k - cap)`, and this is one modulo a power of two only if
`k - cap` has enough factors of two itself, or `a` is one.
-/

namespace ScriptLang

/-! ## Wrapping around -/

/-- Two integers are the same after wrapping around if they differ by a multiple of
`2 ^ 64`. -/
theorem ofInt_eq_ofInt_iff (x y : Int) :
    Int64.ofInt x = Int64.ofInt y ↔ (2 : Int) ^ 64 ∣ x - y := by
  rw [← Int64.toInt_inj, Int64.toInt_ofInt, Int64.toInt_ofInt,
    Int.bmod_eq_bmod_iff_bmod_sub_eq_zero, ← Int.dvd_iff_bmod_eq_zero]
  rfl

namespace Number

/-- Repeated squaring computes the power, wrapped around. -/
theorem wrappingPower_ofInt (result base : Int) (k : Nat) :
    wrappingPower (Int64.ofInt result) (Int64.ofInt base) k =
      Int64.ofInt (result * base ^ k) := by
  induction k using Nat.strong_induction_on generalizing result base with
  | _ k ih =>
      unfold wrappingPower
      split
      · rename_i hzero
        rw [hzero, pow_zero, mul_one]
      · rename_i hpos
        have hhalf : k / 2 < k := by omega
        rw [← Int64.ofInt_mul, ← Int64.ofInt_mul]
        split
        · rename_i hodd
          have hk : k = k / 2 + k / 2 + 1 := by omega
          rw [ih _ hhalf]
          conv_rhs => rw [hk]
          congr 1
          ring
        · rename_i heven
          have hk : k = k / 2 + k / 2 := by omega
          rw [ih _ hhalf]
          conv_rhs => rw [hk]
          congr 1
          ring

end Number

/-! ## Odd numbers and powers of two -/

theorem odd_geom_sum_iff {a : Int} (ha : Odd a) (m : Nat) :
    Odd (∑ i ∈ Finset.range m, a ^ i) ↔ Odd m := by
  induction m with
  | zero => simp
  | succ m ih =>
      have hpow : ¬ Even (a ^ m) := Int.not_even_iff_odd.mpr ha.pow
      rw [Finset.sum_range_succ, Int.odd_add, ih, Nat.odd_add_one]
      exact iff_false_right hpow

/-- An odd power of an odd number is one modulo a power of two only if the number
is. -/
theorem two_pow_dvd_odd_pow_sub_one {a : Int} {m : Nat} (ha : Odd a) (hm : Odd m)
    (n : Nat) :
    (2 : Int) ^ n ∣ a ^ m - 1 ↔ (2 : Int) ^ n ∣ a - 1 := by
  have hsum : Odd (∑ i ∈ Finset.range m, a ^ i) := (odd_geom_sum_iff ha m).mpr hm
  have hcoprime : IsCoprime ((2 : Int) ^ n) (∑ i ∈ Finset.range m, a ^ i) :=
    (Int.isCoprime_two_left.mpr hsum).pow_left
  rw [← mul_geom_sum]
  exact ⟨hcoprime.dvd_of_dvd_mul_right, fun h => h.mul_right _⟩

/-- The factors of two in an even power of an odd number, less one. -/
theorem two_pow_dvd_even_pow_sub_one {a : Int} {m : Nat} (ha : Odd a) (hm : Even m)
    (n : Nat) :
    (2 : Int) ^ n ∣ a ^ m - 1 ↔ (2 : Int) ^ (n + 1) ∣ (a ^ 2 - 1) * m := by
  have hdifference : (2 : Int) ∣ a - 1 := (ha.sub_odd odd_one).two_dvd
  have hnot : ¬ (2 : Int) ∣ a :=
    fun h => (Int.not_even_iff_odd.mpr ha) (even_iff_two_dvd.mpr h)
  have hcount := Int.two_pow_sub_pow hdifference hnot hm
  have hfactors : (a ^ 2 - 1) * (m : Int) = (a + 1) * (a - 1) * m := by ring
  rw [one_pow, ← emultiplicity_mul Int.prime_two, ← emultiplicity_mul
    Int.prime_two, ← hfactors] at hcount
  rw [pow_dvd_iff_le_emultiplicity, pow_dvd_iff_le_emultiplicity, ← hcount,
    Nat.cast_add, Nat.cast_one]
  exact (ENat.add_le_add_iff_right (ENat.natCast_ne_top 1)).symm

/-- Two powers of a number, when they are the same modulo a power of two. -/
theorem two_pow_dvd_pow_sub_pow {a : Int} {i k n : Nat} (hi : n ≤ i) (hk : i ≤ k) :
    (2 : Int) ^ n ∣ a ^ k - a ^ i ↔ (2 : Int) ∣ a ∨
      (2 : Int) ^ n ∣ a ^ (k - i) - 1 := by
  have hfactor : a ^ k - a ^ i = a ^ i * (a ^ (k - i) - 1) := by
    rw [mul_sub, mul_one, ← pow_add, Nat.add_sub_cancel' hk]
  rw [hfactor]
  by_cases heven : (2 : Int) ∣ a
  · have hpow : (2 : Int) ^ n ∣ a ^ i :=
      (pow_dvd_pow_of_dvd heven n).trans (pow_dvd_pow a hi)
    exact iff_of_true (hpow.mul_right _) (.inl heven)
  · have hodd : Odd a := Int.not_even_iff_odd.mp fun h => heven h.two_dvd
    have hcoprime : IsCoprime ((2 : Int) ^ n) (a ^ i) :=
      (Int.isCoprime_two_left.mpr hodd).pow
    rw [or_iff_right heven]
    exact ⟨hcoprime.dvd_of_dvd_mul_left, fun h => h.mul_left _⟩

namespace Value

/-! ## Powers of values -/

/-- The power of an integer, wrapped around at 64 bits. -/
def wrappedPower (a : Int64) (k : Nat) : Value := .int (Int64.ofInt (a.toInt ^ k))

/-- The power that is computed: that of the exponent looked at, wrapped around. -/
theorem intArithmetic_exponent {a b : Int64} (hb : 0 ≤ b) :
    intArithmetic .exponent a b =
      .ok (wrappedPower a (min b.toInt.toNat exponentCap)) := by
  have hpower :=
    Number.wrappingPower_ofInt 1 a.toInt (min b.toInt.toNat exponentCap)
  rw [Int64.ofInt_toInt, one_mul] at hpower
  unfold intArithmetic
  rw [if_neg (Int64.not_lt.mpr hb), wrappedPower, ← hpower]
  rfl

/-- An integer with the value one modulo `2 ^ 64` is one. -/
theorem two_pow_dvd_sub_one_iff (a : Int64) :
    (2 : Int) ^ 64 ∣ a.toInt - 1 ↔ a = 1 := by
  rw [← ofInt_eq_ofInt_iff, Int64.ofInt_toInt]
  rfl

/-- An odd number to the power of `m` is one modulo `2 ^ 64` if the number is one,
or if `m` is even and has enough factors of two. -/
theorem odd_pow_wraps_to_one {a : Int64} (ha : Odd a.toInt) (m : Nat) :
    (2 : Int) ^ 64 ∣ a.toInt ^ m - 1 ↔ a = 1 ∨ Even m ∧
      (2 : Int) ^ 65 ∣ (a.toInt ^ 2 - 1) * m := by
  rcases Nat.even_or_odd m with hm | hm
  · rw [two_pow_dvd_even_pow_sub_one ha hm]
    constructor
    · exact fun h => .inr ⟨hm, h⟩
    · rintro (rfl | ⟨_, h⟩)
      · exact ⟨0, by simp⟩
      · exact h
  · rw [two_pow_dvd_odd_pow_sub_one ha hm, two_pow_dvd_sub_one_iff]
    exact (or_iff_left fun h => Nat.not_even_iff_odd.mpr hm h.1).symm

/-- The power of an integer with an exponent that is not negative is the true one
for the exponent that is looked at, wrapped around at 64 bits.  It is the true one
for the exponent itself exactly if this is within the cap, or the base is even or
one, or the exponent is odd and so far above the cap that the powers of this base
have come round to the same value. -/
theorem arithmetic_exponent (a b : Int64) (hb : 0 ≤ b) :
    arithmetic .exponent (.int a) (.int b) =
      .ok (wrappedPower a (min b.toInt.toNat exponentCap)) ∧
      (arithmetic .exponent (.int a) (.int b) = .ok (wrappedPower a b.toInt.toNat) ↔
        b.toInt.toNat ≤ exponentCap ∨ Even a.toInt ∨ a = 1 ∨
          Odd b.toInt.toNat ∧ (2 : Int) ^ 65 ∣ (a.toInt ^ 2 - 1) *
            (b.toInt.toNat - exponentCap : Nat)) := by
  have hvalue : arithmetic .exponent (.int a) (.int b) =
      .ok (wrappedPower a (min b.toInt.toNat exponentCap)) :=
    intArithmetic_exponent hb
  refine ⟨hvalue, ?_⟩
  rw [hvalue, Except.ok.injEq, wrappedPower, wrappedPower, Value.int.injEq,
    ofInt_eq_ofInt_iff]
  generalize b.toInt.toNat = k
  rcases le_or_gt k exponentCap with hle | hlt
  · rw [Nat.min_eq_left hle, sub_self]
    exact iff_of_true (dvd_zero _) (.inl hle)
  · have hcap : Odd exponentCap := by decide
    have hparity : Even (k - exponentCap) ↔ Odd k := by
      rw [Nat.even_sub' hlt.le]
      exact iff_true_right hcap
    rw [Nat.min_eq_right hlt.le, or_iff_right (Nat.not_le.mpr hlt), dvd_sub_comm,
      two_pow_dvd_pow_sub_pow (by decide) hlt.le, ← even_iff_two_dvd]
    by_cases heven : Even a.toInt
    · exact iff_of_true (.inl heven) (.inl heven)
    · rw [or_iff_right heven, or_iff_right heven,
        odd_pow_wraps_to_one (Int.not_even_iff_odd.mp heven), hparity]

/-- The first power of three whose exponent is above the cap is that of the cap. -/
theorem arithmetic_exponent_three :
    (0 : Int64) ≤ 4294967296 ∧
      arithmetic .exponent (.int 3) (.int 4294967296) =
        .ok (.int (Int64.ofInt (3 ^ 4294967295))) ∧
      arithmetic .exponent (.int 3) (.int 4294967296) ≠
        .ok (.int (Int64.ofInt (3 ^ 4294967296))) := by
  have hb : (0 : Int64) ≤ 4294967296 := by decide
  have hbase : (3 : Int64).toInt = 3 := by decide
  have hexponent : (4294967296 : Int64).toInt.toNat = 4294967296 := by decide
  have hcapped : min 4294967296 exponentCap = 4294967295 := by decide
  obtain ⟨hvalue, hwraps⟩ := arithmetic_exponent 3 4294967296 hb
  simp only [wrappedPower, hbase, hexponent, hcapped] at hvalue hwraps
  refine ⟨hb, hvalue, fun h => ?_⟩
  rcases hwraps.mp h with hle | heven | hone | hodd
  · exact absurd hle (by decide)
  · exact absurd heven (by decide)
  · exact absurd hone (by decide)
  · exact absurd hodd.1 (by decide)

end Value

end ScriptLang
