import BondingCurve.Checked
import Mathlib.Data.Rat.Floor
import Mathlib.Tactic.FieldSimp
import Mathlib.Tactic.Linarith
import Mathlib.Tactic.NormNum
import Mathlib.Tactic.Positivity
import Mathlib.Tactic.Ring

/-!
# Decimals as rational numbers

Every decimal stands for a rational number. Order and equivalence of decimals are those of the
rationals; cutting the fraction is the integer part on a grid, and the shortest written form
changes no value.
-/

namespace BondingCurve

namespace Magnitude

def toRat (x : Magnitude) : ℚ := (x.mantissa : ℚ) / 10 ^ x.scale

theorem toRat_nonneg (x : Magnitude) : 0 ≤ x.toRat := by
  unfold toRat
  positivity

theorem toRat_eq_zero_iff {x : Magnitude} : x.toRat = 0 ↔ x.mantissa = 0 := by
  simp [toRat]

theorem toRat_lt (x : Magnitude) : x.toRat < 2 ^ 96 := by
  have hMantissa : (x.mantissa : ℚ) < 2 ^ 96 := by exact_mod_cast x.mantissa_lt
  have hScale : (1 : ℚ) ≤ 10 ^ x.scale := one_le_pow₀ (by norm_num)
  unfold toRat
  rw [div_lt_iff₀ (by positivity)]
  nlinarith

theorem toRat_dropZeros (x : Magnitude) (n : Nat) : (x.dropZeros n).toRat = x.toRat := by
  induction n generalizing x with
  | zero => rfl
  | succ n ih =>
    unfold dropZeros
    split
    · rename_i h
      obtain ⟨hScale, hDigit⟩ := h
      rw [ih]
      have hMantissa : (x.mantissa : ℚ) = ((x.mantissa / 10 : Nat) : ℚ) * 10 := by
        exact_mod_cast (Nat.div_mul_cancel (Nat.dvd_of_mod_eq_zero hDigit)).symm
      have hPow : (10 : ℚ) ^ x.scale = 10 ^ (x.scale - 1) * 10 := by
        rw [← pow_succ, Nat.sub_add_cancel (Nat.pos_of_ne_zero hScale)]
      change ((x.mantissa / 10 : Nat) : ℚ) / 10 ^ (x.scale - 1) = x.mantissa / 10 ^ x.scale
      rw [hMantissa, hPow, mul_div_mul_right _ _ (by norm_num)]
    · rfl

end Magnitude

namespace Decimal

theorem toRat_eq (x : Decimal) :
    x.toRat = if x.negative then -x.toMagnitude.toRat else x.toMagnitude.toRat := by
  unfold toRat unscaled Magnitude.toRat
  cases x.negative <;> simp [neg_div]

theorem toRat_of_nonneg {x : Decimal} (h : 0 ≤ x.toRat) : x.toRat = x.toMagnitude.toRat := by
  have hMagnitude := x.toMagnitude.toRat_nonneg
  rw [toRat_eq] at h ⊢
  split at h
  · rw [if_pos ‹_›]
    linarith
  · rw [if_neg ‹_›]

theorem abs_toRat (x : Decimal) : |x.toRat| = x.toMagnitude.toRat := by
  have hMagnitude := x.toMagnitude.toRat_nonneg
  rw [toRat_eq]
  split
  · rw [abs_neg, abs_of_nonneg hMagnitude]
  · rw [abs_of_nonneg hMagnitude]

theorem toRat_eq_zero_iff {x : Decimal} : x.toRat = 0 ↔ x.mantissa = 0 := by
  rw [← abs_eq_zero, abs_toRat, Magnitude.toRat_eq_zero_iff]

theorem toRat_nonneg_of_negative_eq_false {x : Decimal} (h : x.negative = false) : 0 ≤ x.toRat := by
  rw [toRat_eq, if_neg (by simp [h])]
  exact x.toMagnitude.toRat_nonneg

theorem le_iff_toRat_le {x y : Decimal} : x ≤ y ↔ x.toRat ≤ y.toRat := by
  change x.unscaled * 10 ^ y.scale ≤ y.unscaled * 10 ^ x.scale ↔ _
  unfold toRat
  rw [div_le_div_iff₀ (by positivity) (by positivity)]
  exact_mod_cast Iff.rfl

theorem lt_iff_toRat_lt {x y : Decimal} : x < y ↔ x.toRat < y.toRat := by
  rw [← not_le_iff_lt, le_iff_toRat_le, not_le]

theorem equiv_iff_toRat_eq {x y : Decimal} : x ≈ y ↔ x.toRat = y.toRat := by
  rw [equiv_iff_le_and_le, le_iff_toRat_le, le_iff_toRat_le, le_antisymm_iff]

theorem toRat_ofNat (n : Nat) (h : n < 2 ^ 96) : (ofNat n h).toRat = n := by
  simp [ofNat, toRat, unscaled]

@[simp] theorem toRat_zero : (0 : Decimal).toRat = 0 := toRat_ofNat 0 (by decide)

@[simp] theorem toRat_one : (1 : Decimal).toRat = 1 := toRat_ofNat 1 (by decide)

theorem toRat_hundred : hundred.toRat = 100 := toRat_ofNat 100 (by decide)

@[simp] theorem toRat_ofWord (n : UInt64) : (ofWord n).toRat = n.toNat := toRat_ofNat _ _

theorem isZero_iff_toRat {x : Decimal} : x.isZero = true ↔ x.toRat = 0 := by
  rw [isZero_iff, equiv_iff_toRat_eq, toRat_zero]

theorem lt_zero_iff_toRat {x : Decimal} : x < 0 ↔ x.toRat < 0 := by
  rw [lt_iff_toRat_lt, toRat_zero]

theorem toRat_withSign (x : Magnitude) (negative : Bool) :
    (x.withSign negative).toRat = if negative then -x.toRat else x.toRat :=
  toRat_eq _

theorem toRat_signed (x : Magnitude) (negative : Bool) :
    (x.signed negative).toRat = if negative then -x.toRat else x.toRat := by
  rw [toRat_eq]
  unfold Magnitude.signed
  by_cases hZero : x.mantissa = 0
  · have hValue : x.toRat = 0 := Magnitude.toRat_eq_zero_iff.mpr hZero
    simp [hZero, hValue]
  · simp [hZero]

theorem toRat_negate (x : Decimal) : x.negate.toRat = -x.toRat := by
  rw [toRat_eq, toRat_eq]
  unfold negate
  cases x.negative <;> simp

@[simp] theorem toRat_normalize (x : Decimal) : x.normalize.toRat = x.toRat := by
  unfold normalize
  split
  · rename_i hZero
    rw [toRat_zero, isZero_iff_toRat.mp hZero]
  · rw [toRat_withSign, Magnitude.toRat_dropZeros, ← toRat_eq]

/-- The decimal with this mantissa and this many places; zero where there is none. -/
def scaled (mantissa places : Nat) : Decimal :=
  ((Magnitude.of? mantissa places).getD .zero).withSign false

def units (n : Nat) : Decimal := scaled n 0

end Decimal

end BondingCurve
