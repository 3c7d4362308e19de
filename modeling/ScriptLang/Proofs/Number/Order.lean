import Mathlib
import ScriptLang.Number.Arithmetic

/-!
# The order of floating-point numbers

A floating-point number is a zero, an infinity, a finite number with a sign, an
exponent and a mantissa, or the not-a-number.  The order of two of them
(`Number.order?`) is decided on these parts.  It turns around with its operands
(`order?_swap`), and it is missing exactly if one of them is the not-a-number
(`order?_eq_none_iff`).  Both zeros are equal, so equality is having the order `eq`
and not being the same number.

An integer becomes a zero or a finite number, never the not-a-number
(`isNaN_ofInt64`).
-/

namespace ScriptLang.Number

open Float.Model

/-! ## The parts of a number -/

/-- The order of two numbers by their parts turns around with its operands. -/
theorem compare_unpacked_swap (u v : UnpackedFloat) :
    (u.compare v).map Ordering.swap = v.compare u := by
  have hparts : ∀ (e f : Int) (m n : Nat),
      ((compare e f).then (compare m n)).swap =
        (compare f e).then (compare n m) := by
    intro e f m n
    rw [Ordering.swap_then, Std.OrientedOrd.eq_swap (a := f),
      Std.OrientedOrd.eq_swap (a := n)]
  cases u with
  | notANumber => cases v <;> rfl
  | infinity s =>
      cases v with
      | notANumber => rfl
      | infinity t => cases s <;> cases t <;> rfl
      | zero | finite => cases s <;> rfl
  | zero s =>
      cases v with
      | notANumber | zero => rfl
      | infinity t | finite t => cases t <;> rfl
  | finite s m e =>
      cases v with
      | notANumber => rfl
      | infinity t => cases t <;> rfl
      | zero => cases s <;> rfl
      | finite t n f => cases s <;> cases t <;> simp [UnpackedFloat.compare, hparts]

/-- Only the not-a-number has no order. -/
theorem compare_unpacked_eq_none_iff (u v : UnpackedFloat) :
    u.compare v = none ↔ u.isNaN = true ∨ v.isNaN = true := by
  cases u with
  | notANumber => cases v <;> simp [UnpackedFloat.compare, UnpackedFloat.isNaN]
  | infinity s =>
      cases v with
      | notANumber => simp [UnpackedFloat.compare, UnpackedFloat.isNaN]
      | infinity | zero | finite =>
          cases s <;> simp [UnpackedFloat.compare, UnpackedFloat.isNaN]
  | zero s =>
      cases v with
      | notANumber | zero => simp [UnpackedFloat.compare, UnpackedFloat.isNaN]
      | infinity t | finite t =>
          cases t <;> simp [UnpackedFloat.compare, UnpackedFloat.isNaN]
  | finite s m e =>
      cases v with
      | notANumber => simp [UnpackedFloat.compare, UnpackedFloat.isNaN]
      | infinity t | zero t | finite t =>
          cases s <;> cases t <;> simp [UnpackedFloat.compare, UnpackedFloat.isNaN]

/-! ## Comparing two numbers -/

/-- One number is less than another one if their unpacked forms are. -/
theorem lt_iff (x y : Float) :
    x < y ↔ x.toModel.unpack.compare y.toModel.unpack = some .lt :=
  calc x < y ↔ x.toModel < y.toModel := decide_eq_true_iff
    _ ↔ (x.toModel.unpack.compare y.toModel.unpack == some .lt) = true := Iff.rfl
    _ ↔ _ := beq_iff_eq

/-- Numbers are equal if their unpacked forms are. -/
theorem beq_iff (x y : Float) :
    (x == y) = true ↔ x.toModel.unpack.compare y.toModel.unpack = some .eq :=
  calc (x == y) = true ↔ (x.toModel.unpack.compare y.toModel.unpack == some .eq) =
    true := Iff.rfl
    _ ↔ _ := beq_iff_eq

/-- Two numbers are compared by their parts. -/
theorem order?_eq (x y : Float) :
    order? x y = x.toModel.unpack.compare y.toModel.unpack := by
  unfold order?
  simp only [lt_iff, beq_iff]
  rw [← compare_unpacked_swap x.toModel.unpack]
  cases x.toModel.unpack.compare y.toModel.unpack with
  | none => simp
  | some order => cases order <;> simp

/-- The order of two numbers turns around with its operands. -/
theorem order?_swap (x y : Float) :
    (order? x y).map Ordering.swap = order? y x := by
  rw [order?_eq, order?_eq, compare_unpacked_swap]

/-- Two numbers have no order if and only if one of them is the not-a-number. -/
theorem order?_eq_none_iff (x y : Float) :
    order? x y = none ↔ x.isNaN = true ∨ y.isNaN = true := by
  rw [order?_eq]
  exact compare_unpacked_eq_none_iff _ _

/-- Numbers are equal in the order if they are equal. -/
theorem order?_eq_some_eq_iff (x y : Float) :
    order? x y = some .eq ↔ (x == y) = true := by
  rw [order?_eq, beq_iff]

/-! ## Integers -/

/-- A number whose exponent is not the greatest one, or whose fraction is zero, is
not the not-a-number. -/
theorem isNaN_unpack {b : BitVec Format.binary64.numBits}
    (h : UnpackedFloat.unpackExponent b ≠ -1#11 ∨
      UnpackedFloat.unpackMantissa b = 0#52) :
    (UnpackedFloat.unpack Format.binary64 b).isNaN = false := by
  unfold UnpackedFloat.unpack
  dsimp only
  split
  · rename_i hexponent
    rw [if_pos (h.resolve_left (not_not_intro hexponent))]
    rfl
  · split
    · split <;> rfl
    · rfl

/-- Parts that are not those of the not-a-number do not make it one. -/
theorem isNaN_pack {u : UnpackedFloat} (h : u.isNaN = false) :
    (Float.Model.pack u).isNaN = false := by
  refine isNaN_unpack ?_
  unfold Float.Model.pack
  dsimp only
  cases u with
  | notANumber => cases h
  | infinity s => exact .inr UnpackedFloat.unpackMantissa_packComponents
  | zero s =>
      left
      rw [UnpackedFloat.pack, UnpackedFloat.packedZero,
        UnpackedFloat.unpackExponent_packComponents]
      decide
  | finite s m e =>
      rw [UnpackedFloat.pack]
      dsimp only
      split
      · exact .inr UnpackedFloat.unpackMantissa_packComponents
      · -- The exponent of a finite number leaves room for the greatest one.
        rename_i hsmall
        left
        split
        · rw [UnpackedFloat.unpackExponent_packComponents]
          intro hgreatest
          have hbits := congrArg BitVec.toNat hgreatest
          have hones : (-1#11).toNat = 2047 := by decide
          have hle := Nat.mod_le
            (e + ↑Format.binary64.exponentBias +
              ↑Format.binary64.mantissaBitsWithoutImplicit).toNat (2 ^ 11)
          rw [BitVec.toNat_ofNat, hones] at hbits
          omega
        · rw [UnpackedFloat.unpackExponent_packComponents]
          decide

/-- Rounding a mantissa and an exponent gives a number. -/
theorem isNaN_normalize (m e : Int) (s : UnpackedFloat.Sign) :
    (UnpackedFloat.normalize Format.binary64 m e s).isNaN = false := by
  have hround : ∀ s m e, (UnpackedFloat.round Format.binary64 s m e).isNaN =
      false := by
    intro s m e
    unfold UnpackedFloat.round UnpackedFloat.roundWithAccuracy
    dsimp only
    split <;> rfl
  unfold UnpackedFloat.normalize
  split
  · exact hround _ _ _
  · rfl
  · exact hround _ _ _

/-- The negative of a number is a number. -/
theorem isNaN_neg {x : Float} (h : x.isNaN = false) : (-x).isNaN = false := by
  refine isNaN_pack ?_
  have hparts : x.toModel.unpack.isNaN = false := h
  generalize x.toModel.unpack = u at hparts ⊢
  cases u with
  | notANumber => cases hparts
  | infinity | zero | finite => rfl

/-- No integer becomes the not-a-number. -/
theorem isNaN_ofInt64 (i : Int64) : (ofInt64 i).isNaN = false := by
  have hunsigned : ∀ n : UInt64, n.toFloat.isNaN = false :=
    fun n => isNaN_pack (isNaN_normalize _ _ _)
  unfold ofInt64
  split
  · exact isNaN_neg (hunsigned _)
  · exact hunsigned _

end ScriptLang.Number
