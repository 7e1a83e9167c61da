import BondingCurve.Proofs.Decimal.Canonical

/-!
# Amounts as they are written

Cutting to an amount and taking off the zeros leaves eighteen fractional digits at most, none of them a
last zero, and a zero without a sign, so nothing but the value has to be checked.
-/

namespace BondingCurve

theorem Magnitude.scale_dropZeros_le (x : Magnitude) (n : Nat) : (x.dropZeros n).scale ≤ x.scale := by
  induction n generalizing x with
  | zero => rfl
  | succ n ih =>
    rw [dropZeros]
    split
    · exact (ih _).trans (Nat.sub_le _ _)
    · rfl

namespace Decimal

variable {x : Decimal} {places : Nat} {hPlaces : places ≤ 28}

/-- A non-negative amount in its shortest form. -/
structure WellFormed (x : Decimal) : Prop where
  nonneg : 0 ≤ x.toRat
  places : x.scale ≤ amountPlaces
  shortest : x.scale = 0 ∨ x.mantissa % 10 ≠ 0
  unsigned : x.negative = false

theorem wellFormed_zero : WellFormed 0 := ⟨toRat_zero.ge, by decide, .inl rfl, rfl⟩

theorem wellFormed_one : WellFormed 1 := ⟨by simp, by decide, .inl rfl, rfl⟩

theorem wellFormed_normalize (hSign : 0 ≤ x.toRat) (hShort : x.scale ≤ amountPlaces) :
    x.normalize.WellFormed := by
  rw [normalize]
  split
  · exact wellFormed_zero
  · rename_i hNonzero
    have hPos : 0 < x.toRat := lt_of_le_of_ne hSign (Ne.symm (mt isZero_iff_toRat.mpr hNonzero))
    rw [negative_eq_false hPos]
    constructor
    · rw [toRat_withSign, if_neg (by decide)]
      exact Magnitude.toRat_nonneg _
    · exact (Magnitude.scale_dropZeros_le _ _).trans hShort
    · exact Magnitude.scale_dropZeros le_rfl
    · rfl

theorem scale_truncateTo_le (x : Decimal) : (x.truncateTo places hPlaces).scale ≤ places := by
  rw [truncateTo]
  split
  · assumption
  · exact le_rfl

theorem scale_ceilTo_le (x : Decimal) : (x.ceilTo places hPlaces).scale ≤ places := by
  rw [ceilTo]
  split
  · assumption
  · split
    · exact le_rfl
    · exact le_rfl

theorem wellFormed_quantize (h : 0 ≤ x.quantize.toRat) : x.quantize.WellFormed := by
  rw [quantize, toRat_normalize] at h
  exact wellFormed_normalize h x.scale_truncateTo_le

theorem wellFormed_quantizeUp (h : 0 ≤ x.toRat) : x.quantizeUp.WellFormed := by
  have hSign := h.trans (le_quantizeUp x)
  rw [quantizeUp, toRat_normalize] at hSign
  exact wellFormed_normalize hSign x.scale_ceilTo_le

end Decimal

end BondingCurve
