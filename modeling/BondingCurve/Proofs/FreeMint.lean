import BondingCurve.Proofs.Settlement

/-!
# When a mint is free

A quote takes the minimum charge only where it finds the reserve above the integral by a whole unit of an amount. A
reserve that meets the integral, or misses it by less than a unit on either side, is asked nothing. So where earlier
mints have put into the reserve just what the next supply asks for, that mint is free.
-/

namespace BondingCurve

open Logged Decimal

theorem OnGrid.unit_le_abs_sub_iff {places : Nat} {v w : ℚ} (hv : OnGrid places v) (hw : OnGrid places w) :
    1 / 10 ^ places ≤ |v - w| ↔ v ≠ w := by
  constructor
  · rintro hApart rfl
    have hUnit : (0 : ℚ) < 1 / 10 ^ places := by positivity
    rw [sub_self, abs_zero] at hApart
    exact absurd hApart (not_le.mpr hUnit)
  · intro hNe
    rcases lt_or_gt_of_ne hNe with hBelow | hAbove
    · exact le_abs.mpr (.inr (by linarith [hv.add_unit_le hw hBelow]))
    · exact le_abs.mpr (.inl (by linarith [hw.add_unit_le hv hAbove]))

namespace Decimal

variable {x y difference : Decimal}

theorem quantize_pos_iff : 0 < x.quantize.toRat ↔ 1 / 10 ^ amountPlaces ≤ x.toRat := by
  have hPow : (0 : ℚ) < 10 ^ amountPlaces := by positivity
  rw [div_le_iff₀ hPow]
  rcases le_total 0 x.toRat with hSign | hSign
  · rw [toRat_quantize_of_nonneg hSign, lt_div_iff₀ hPow, zero_mul, Int.cast_pos, ← Int.add_one_le_iff, zero_add,
      Int.le_floor, Int.cast_one]
  · have hUnits : x.toRat * 10 ^ amountPlaces ≤ 0 := mul_nonpos_of_nonpos_of_nonneg hSign hPow.le
    exact ⟨fun h => absurd (quantize_nonpos hSign) (not_le.mpr h), fun h => by linarith⟩

/-- Decimals that are less than a unit of an amount apart have an exact difference. -/
theorem unit_le_abs_iff_of_sub (h : x.sub y = .ok difference) :
    1 / 10 ^ amountPlaces ≤ |difference.toRat| ↔ 1 / 10 ^ amountPlaces ≤ |x.toRat - y.toRat| := by
  have hRounds := (computes_sub? x y).rounds (checked_eq_ok_iff.mp h)
  have hUnit : Exact (1 / 10 ^ amountPlaces) := exact_of_onGrid (by decide) (onGrid_unit _) (by
    rw [abs_of_pos (by positivity), one_div_mul_cancel (by positivity)]
    norm_num)
  constructor
  · contrapose!
    intro hClose
    have hGrid := (onGrid_toRat x.scale_le).sub (onGrid_toRat y.scale_le)
    have hSmall : |x.toRat - y.toRat| * 10 ^ 28 < 2 ^ 96 := by
      rw [amountPlaces] at hClose
      linarith
    rwa [hRounds.eq_of_exact (exact_of_onGrid le_rfl hGrid hSmall)]
  · intro hApart
    rcases le_abs.mp hApart with hAbove | hBelow
    · exact (hRounds.le_of_exact hUnit hAbove).trans (le_abs_self _)
    · have hLow := hRounds.ge_of_exact hUnit.neg (by linarith)
      exact (le_neg.mp hLow).trans (neg_le_abs _)

end Decimal

namespace Bond

variable {bond : Bond} {policy : Policy} {mint difference : Decimal} {balances prices : Coins}

theorem deposit_pos_iff : 0 < (deposit difference).toRat ↔ 1 / 10 ^ amountPlaces ≤ |difference.toRat| := by
  rw [deposit]
  split
  · rename_i hExcess
    rw [lt_zero_iff_toRat, quantize_neg_iff, neg_div] at hExcess
    have hOne : minMintPrice.toRat = 1 := toRat_one
    exact iff_of_true (hOne ▸ one_pos) (le_abs.mpr (.inr (le_neg.mpr hExcess)))
  · rename_i hDue
    rw [lt_zero_iff_toRat, quantize_neg_iff, neg_div, not_le] at hDue
    rw [quantize_pos_iff, le_abs]
    exact ⟨.inl, fun h => h.resolve_right fun hBelow => absurd (le_neg.mp hBelow) (not_le.mpr hDue)⟩

/-- A mint costs something unless the reserve is within a unit of an amount of the integral it leads to; for a
reserve of amounts, unless the two are equal. A bond that is not funded ahead of its curve always charges. -/
theorem charges_iff (hFamily : bond.family = .power ∨ bond.family = .sigmoid)
    (hValid : (bond.validate policy).outcome = .ok ())
    (hPrices : (bond.pricesToMint mint balances).outcome = .ok prices) :
    ∃ total target, bond.supply.amount.add mint = .ok total ∧ (bond.curveIntegral total).outcome = .ok target ∧
      ∀ denom ∈ bond.reserves,
        (0 < prices.amountOf denom ↔
          1 / 10 ^ amountPlaces ≤ |target.toRat - (bond.commonBalance balances).toRat|) ∧
        (IsAmount (bond.commonBalance balances).toRat →
          (0 < prices.amountOf denom ↔ ¬bond.commonBalance balances ≈ target)) ∧
        ∀ integral, (bond.curveIntegral bond.supply.amount).outcome = .ok integral →
          bond.commonBalance balances ≤ integral → integral < target → 0 < prices.amountOf denom := by
  have hClosed := closedForm_of_validate hFamily hValid
  obtain ⟨_, total, target, difference, hTotal, hTarget, hDifference, rfl⟩ :=
    hClosed.pricesToMint_eq_ok_iff.mp hPrices
  refine ⟨total, target, hTotal, hTarget, fun denom hd => ?_⟩
  rw [Coins.amountOf_each _ hd, lt_iff_toRat_lt, toRat_zero, deposit_pos_iff, unit_le_abs_iff_of_sub hDifference]
  refine ⟨Iff.rfl, fun hAmount => ?_, fun integral hIntegral hUnder hRises => ?_⟩
  · rw [(curveIntegral_isAmount hTarget).unit_le_abs_sub_iff hAmount, equiv_iff_toRat_eq, eq_comm]
  · rw [le_iff_toRat_le] at hUnder
    rw [lt_iff_toRat_lt] at hRises
    have hUnit := OnGrid.add_unit_le (curveIntegral_isAmount hIntegral) (curveIntegral_isAmount hTarget) hRises
    exact le_abs.mpr (.inl (by linarith))

/-- Half a token is minted and, rounded up, paid for with a whole unit. -/
def halfMinted : Bond := { unitPriced with supply := ⟨"unit", .scaled 5 1⟩ }

/-- The other half is free, though the integral rises from one half to one. -/
theorem charges_iff_halfMinted :
    (halfMinted.validate .strict).outcome = .ok () ∧
    (halfMinted.pricesToMint (.scaled 5 1) (.single "res" 1)).outcome = .ok (.single "res" 0) ∧
    (halfMinted.curveIntegral (.scaled 5 1)).outcome = .ok (.scaled 5 1) ∧
    (halfMinted.curveIntegral (.scaled 10 1)).outcome = .ok 1 ∧
    halfMinted.commonBalance (.single "res" 1) ≈ 1 := by
  have hValid : (halfMinted.validate .strict).outcome = .ok () := by decide +kernel
  have hPrices : (halfMinted.pricesToMint (.scaled 5 1) (.single "res" 1)).outcome = .ok (.single "res" 0) := by
    decide +kernel
  have hTotal : halfMinted.supply.amount.add (.scaled 5 1) = .ok (.scaled 10 1) := by decide +kernel
  have hTarget : (halfMinted.curveIntegral (.scaled 10 1)).outcome = .ok 1 := by decide +kernel
  have hBalance : IsAmount (halfMinted.commonBalance (.single "res" 1)).toRat := ⟨10 ^ 18, by decide +kernel⟩
  have hFree : ¬(0 : Decimal) < (Coins.single "res" 0).amountOf "res" := by decide
  obtain ⟨_, _, hTotal', hTarget', hCharges⟩ := charges_iff (.inl rfl) hValid hPrices
  cases hTotal.symm.trans hTotal'
  cases hTarget.symm.trans hTarget'
  have hLevel := (hCharges "res" (by decide +kernel)).2.1 hBalance
  exact ⟨hValid, hPrices, by decide +kernel, hTarget, not_not.mp fun h => hFree (hLevel.mpr h)⟩

end Bond

end BondingCurve
