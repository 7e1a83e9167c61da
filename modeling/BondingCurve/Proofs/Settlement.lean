import BondingCurve.Proofs.Backing

/-!
# Does a settlement leave the reserve above the curve?

A settlement is a quote rounded to whole units in favour of the reserve. The quote itself is one
difference of amounts, rounded to nearest. That rounding crosses no whole number, so rounding to
units makes up for it, unless it lands on a whole number on the wrong side of the exact difference.
A difference below `2 ^ 96` units of the eighteenth place is exact, and then nothing is lost.
-/

namespace BondingCurve

open Decimal

namespace RoundsSigned

variable {v r : ℚ}

theorem floor_le (h : RoundsSigned v r) (hv : 0 ≤ v) : (⌊v⌋ : ℚ) ≤ r := by
  have hFloor : ((⌊v⌋.toNat : Nat) : ℤ) = ⌊v⌋ := Int.toNat_of_nonneg (Int.floor_nonneg.mpr hv)
  have hLow : ((⌊v⌋.toNat : Nat) : ℚ) ≤ v := by
    rw [← Int.cast_natCast, hFloor]
    exact Int.floor_le v
  have := (h.rounds hv).natCast_le hLow
  rwa [← Int.cast_natCast, hFloor] at this

theorem le_ceil (h : RoundsSigned v r) (hv : 0 ≤ v) : r ≤ ⌈v⌉ := by
  have hCeil : ((⌈v⌉.toNat : Nat) : ℤ) = ⌈v⌉ := Int.toNat_of_nonneg (Int.ceil_nonneg hv)
  have hHigh : v ≤ (⌈v⌉.toNat : Nat) := by
    rw [← Int.cast_natCast, hCeil]
    exact Int.le_ceil v
  have := (h.rounds hv).le_natCast hHigh
  rwa [← Int.cast_natCast, hCeil] at this

/-- A charge in whole units covers the exact value unless the rounding below it is whole. -/
theorem le_ceil_iff (h : RoundsSigned v r) (hv : 0 ≤ v) :
    v ≤ ⌈r⌉ ↔ ¬((⌊r⌋ : ℚ) = r ∧ r < v) := by
  constructor
  · rintro hCovers ⟨hWhole, hShort⟩
    rw [← hWhole, Int.ceil_intCast, hWhole] at hCovers
    exact absurd hCovers (not_le.mpr hShort)
  · intro hGood
    by_contra hShort
    apply hGood
    have hFloor : ⌈r⌉ ≤ ⌊v⌋ := Int.le_floor.mpr (not_le.mp hShort).le
    have hFloorRat : (⌈r⌉ : ℚ) ≤ ⌊v⌋ := by exact_mod_cast hFloor
    have hSame : (⌈r⌉ : ℚ) = r := le_antisymm (hFloorRat.trans (h.floor_le hv)) (Int.le_ceil r)
    refine ⟨?_, (Int.le_ceil r).trans_lt (not_le.mp hShort)⟩
    rw [← hSame, Int.floor_intCast]

/-- A payment in whole units stays within the exact value unless the rounding above it is whole. -/
theorem floor_le_iff (h : RoundsSigned v r) (hv : 0 ≤ v) :
    (⌊r⌋ : ℚ) ≤ v ↔ ¬((⌊r⌋ : ℚ) = r ∧ v < r) := by
  constructor
  · rintro hCovers ⟨hWhole, hOver⟩
    rw [hWhole] at hCovers
    exact absurd hCovers (not_le.mpr hOver)
  · intro hGood
    by_contra hOver
    apply hGood
    have hCeil : ⌈v⌉ ≤ ⌊r⌋ := Int.ceil_le.mpr (not_le.mp hOver).le
    have hCeilRat : (⌈v⌉ : ℚ) ≤ ⌊r⌋ := by exact_mod_cast hCeil
    exact ⟨le_antisymm (Int.floor_le r) ((h.le_ceil hv).trans hCeilRat),
      (not_le.mp hOver).trans_le (Int.floor_le r)⟩

theorem isAmount (h : RoundsSigned v r) (hv : IsAmount v) : IsAmount r := by
  have hMagnitude : IsAmount |r| := by
    obtain ⟨t, _, ⟨q, _, hNearest, hr⟩, _⟩ := h.magnitude
    rcases Nat.le_or_ge t amountPlaces with hFew | hMany
    · refine ⟨q * 10 ^ (amountPlaces - t), ?_⟩
      have hPow : (10 : ℚ) ^ amountPlaces = 10 ^ t * 10 ^ (amountPlaces - t) := by
        rw [← pow_add, Nat.add_sub_cancel' hFew]
      rw [hr, hPow]
      push_cast
      field_simp
    · -- with so many places the value is already one of the units
      obtain ⟨k, hk⟩ : IsAmount |v| := by
        rcases abs_choice v with hAbs | hAbs
        · rwa [hAbs]
        · rw [hAbs]
          exact hv.neg
      have hNonneg : 0 ≤ k := by
        have : (0 : ℚ) ≤ k := by
          rw [← hk]
          positivity
        exact_mod_cast this
      obtain ⟨n, rfl⟩ := Int.eq_ofNat_of_zero_le hNonneg
      have hPow : (10 : ℚ) ^ t = 10 ^ amountPlaces * 10 ^ (t - amountPlaces) := by
        rw [← pow_add, Nat.add_sub_cancel' hMany]
      have hUnits : |v| * 10 ^ t = (n * 10 ^ (t - amountPlaces) : Nat) := by
        rw [hPow, ← mul_assoc, hk]
        push_cast
        rfl
      rw [hUnits] at hNearest
      refine ⟨n, ?_⟩
      rw [hr, hNearest.unique (.natCast _), hPow]
      push_cast
      field_simp
  rcases abs_choice r with hAbs | hAbs
  · rwa [hAbs] at hMagnitude
  · rw [hAbs] at hMagnitude
    have := hMagnitude.neg
    rwa [neg_neg] at this

end RoundsSigned

namespace Decimal

/-- Below this bound every amount is a decimal. -/
def exactBound : ℚ := 2 ^ 96 / 10 ^ amountPlaces

theorem exact_of_isAmount {v : ℚ} (hv : IsAmount v) (h : |v| < exactBound) : Exact v := by
  rw [exactBound, lt_div_iff₀ (by positivity)] at h
  exact exact_of_onGrid (by decide) hv h

end Decimal

namespace Bond

variable {bond : Bond} {balances coins : Coins} {amount difference target remaining : Decimal} {R : ℚ}

def Holds (bond : Bond) (balances : Coins) (R : ℚ) : Prop :=
  ∀ denom ∈ bond.reserves, (balances.amountOf denom).toRat = R

theorem ClosedForm.commonBalance_eq (h : ClosedForm bond) (hHolds : bond.Holds balances R) :
    (bond.commonBalance balances).toRat = R := by
  have hNonempty := h.nonempty
  unfold Holds at hHolds
  unfold commonBalance
  cases hReserves : bond.reserves with
  | nil => exact absurd hReserves hNonempty
  | cons denom rest => exact hHolds denom (by rw [hReserves]; exact List.mem_cons_self)

theorem deposit_of_neg (hAmount : IsAmount difference.toRat) (h : difference.toRat < 0) :
    deposit difference = minMintPrice := by
  unfold deposit
  rw [if_pos]
  rwa [lt_zero_iff_toRat, toRat_quantize_of_isAmount hAmount]

theorem toRat_deposit_of_nonneg (hAmount : IsAmount difference.toRat) (h : 0 ≤ difference.toRat) :
    (deposit difference).toRat = difference.toRat := by
  unfold deposit
  rw [if_neg, toRat_quantize_of_isAmount hAmount]
  rw [lt_zero_iff_toRat, toRat_quantize_of_isAmount hAmount]
  exact not_lt.mpr h

/-- The charge for a mint, in units: one where the reserve is already above the integral. -/
theorem toRat_ceil_deposit (hAmount : IsAmount difference.toRat) :
    (deposit difference).ceilUnits.toRat = if difference.toRat < 0 then 1 else (⌈difference.toRat⌉ : ℚ) := by
  rw [toRat_ceilUnits]
  split
  · rename_i hExcess
    rw [deposit_of_neg hAmount hExcess]
    have hOne : minMintPrice.toRat = 1 := toRat_one
    rw [hOne, Int.ceil_one, Int.cast_one]
  · rename_i hDue
    rw [toRat_deposit_of_nonneg hAmount (not_lt.mp hDue)]

theorem toRat_truncate_payout (hAmount : IsAmount difference.toRat) (h : 0 ≤ difference.toRat) :
    difference.quantize.truncateUnits.toRat = ⌊difference.toRat⌋ := by
  rw [toRat_truncateUnits_of_nonneg, toRat_quantize_of_isAmount hAmount]
  rwa [toRat_quantize_of_isAmount hAmount]

theorem roundsSigned_charge (hHolds : (bond.commonBalance balances).toRat = R)
    (h : target.sub (bond.commonBalance balances) = .ok difference) :
    RoundsSigned (target.toRat - R) difference.toRat :=
  hHolds ▸ (computes_sub? _ _).rounds (checked_eq_ok_iff.mp h)

theorem roundsSigned_payout (hHolds : (bond.commonBalance balances).toRat = R)
    (h : (bond.commonBalance balances).sub remaining = .ok difference) :
    RoundsSigned (R - remaining.toRat) difference.toRat :=
  hHolds ▸ (computes_sub? _ _).rounds (checked_eq_ok_iff.mp h)

theorem charge_covers_iff (hRounds : RoundsSigned (target.toRat - R) difference.toRat)
    (hAmount : IsAmount difference.toRat) :
    target.toRat ≤ R + (deposit difference).ceilUnits.toRat ↔
      ¬(R < target.toRat ∧ difference.IsInteger ∧ difference.toRat < target.toRat - R) := by
  rw [toRat_ceil_deposit hAmount]
  rcases le_or_gt target.toRat R with hAbove | hBelow
  · have hNone : ¬(R < target.toRat ∧ difference.IsInteger ∧ difference.toRat < target.toRat - R) :=
      fun h => absurd h.1 (not_lt.mpr hAbove)
    refine iff_of_true ?_ hNone
    split
    · linarith
    · rename_i hDue
      have : (0 : ℚ) ≤ ⌈difference.toRat⌉ := by exact_mod_cast Int.ceil_nonneg (not_lt.mp hDue)
      linarith
  · have hNonneg := hRounds.nonneg (sub_nonneg.mpr hBelow.le)
    rw [if_neg (not_lt.mpr hNonneg), isInteger_iff_floor hNonneg]
    have hCovers := hRounds.le_ceil_iff (sub_nonneg.mpr hBelow.le)
    constructor
    · rintro h ⟨_, hLost⟩
      exact hCovers.mp (by linarith) hLost
    · intro h
      have := hCovers.mpr fun hLost => h ⟨hBelow, hLost⟩
      linarith

theorem payout_covers_iff (hLe : remaining.toRat ≤ R)
    (hRounds : RoundsSigned (R - remaining.toRat) difference.toRat)
    (hAmount : IsAmount difference.toRat) :
    remaining.toRat ≤ R - difference.quantize.truncateUnits.toRat ↔
      ¬(difference.IsInteger ∧ R - remaining.toRat < difference.toRat) := by
  have hNonneg := hRounds.nonneg (sub_nonneg.mpr hLe)
  rw [toRat_truncate_payout hAmount hNonneg, isInteger_iff_floor hNonneg,
    ← hRounds.floor_le_iff (sub_nonneg.mpr hLe)]
  constructor
  · intro h
    linarith
  · intro h
    linarith

theorem amountOf_roundUp_each (h : bond.reserves.Pairwise (· < ·)) {f : String → Decimal} {denom : String}
    (hd : denom ∈ bond.reserves) :
    (Coins.each bond.reserves h f).roundUp.amountOf denom = (f denom).ceilUnits := by
  unfold Coins.roundUp
  rw [Coins.mapAmounts_each, Coins.amountOf_each _ hd]

theorem amountOf_roundDown_each (h : bond.reserves.Pairwise (· < ·)) {f : String → Decimal} {denom : String}
    (hd : denom ∈ bond.reserves) :
    (Coins.each bond.reserves h f).roundDown.amountOf denom = (f denom).truncateUnits := by
  unfold Coins.roundDown
  rw [Coins.mapAmounts_each, Coins.amountOf_each _ hd]

/-- When a settlement leaves the reserve at the integral or above. A charge falls short exactly when
the difference rounds down to a whole number, a payment overdraws exactly when it rounds up to one. -/
theorem settlement_covers_iff {policy : Policy} (hFamily : bond.family = .power ∨ bond.family = .sigmoid)
    (hValid : (bond.validate policy).outcome = .ok ()) (hHolds : bond.Holds balances R)
    (hAmount : IsAmount R) :
    (∀ prices, (bond.pricesToMint amount balances).outcome = .ok prices →
      ∃ total target difference, bond.supply.amount.add amount = .ok total ∧
        (bond.curveIntegral total).outcome = .ok target ∧
        target.sub (bond.commonBalance balances) = .ok difference ∧
        ∀ denom ∈ bond.reserves, target.toRat ≤ R + (prices.roundUp.amountOf denom).toRat ↔
          ¬(R < target.toRat ∧ difference.IsInteger ∧ difference.toRat < target.toRat - R)) ∧
    (∀ returns, (bond.returnsForBurn amount balances).outcome = .ok returns →
      ∃ rest remaining difference, bond.supply.amount.sub amount = .ok rest ∧
        (bond.curveIntegral rest).outcome = .ok remaining ∧
        (bond.commonBalance balances).sub remaining = .ok difference ∧
        ∀ denom ∈ bond.reserves, remaining.toRat ≤ R - (returns.roundDown.amountOf denom).toRat ↔
          ¬(difference.IsInteger ∧ R - remaining.toRat < difference.toRat)) := by
  have hClosed := closedForm_of_validate hFamily hValid
  have hCommon := hClosed.commonBalance_eq hHolds
  constructor
  · intro prices hPrices
    obtain ⟨_, total, target, difference, hTotal, hTarget, hDifference, rfl⟩ :=
      hClosed.pricesToMint_eq_ok_iff.mp hPrices
    have hRounds := roundsSigned_charge hCommon hDifference
    refine ⟨total, target, difference, hTotal, hTarget, hDifference, fun denom hd => ?_⟩
    rw [amountOf_roundUp_each hClosed.ascending hd]
    exact charge_covers_iff hRounds (hRounds.isAmount ((curveIntegral_isAmount hTarget).sub hAmount))
  · intro returns hReturns
    obtain ⟨_, _, rest, remaining, difference, hRest, hRemaining, hLe, hDifference, rfl⟩ :=
      hClosed.returnsForBurn_eq_ok_iff.mp hReturns
    have hRounds := roundsSigned_payout hCommon hDifference
    refine ⟨rest, remaining, difference, hRest, hRemaining, hDifference, fun denom hd => ?_⟩
    rw [amountOf_roundDown_each hClosed.ascending hd]
    exact payout_covers_iff (hCommon ▸ hLe) hRounds
      (hRounds.isAmount (hAmount.sub (curveIntegral_isAmount hRemaining)))

def powerBond (m n c : Decimal) : Bond :=
  .create "unit" "Unit" "One reserve token" .zero .power (.ofPairs [("m", m), ("n", n), ("c", c)])
    ["res"] (.units (10 ^ 27))

/-- A token costs one unit of the reserve token, whatever the supply. -/
def unitPriced : Bond := powerBond 0 1 1

def almostOne : Decimal := .scaled 999999999999999999 amountPlaces

theorem settlement_covers_iff_unitPriced :
    (unitPriced.validate .strict).outcome = .ok () ∧
    unitPriced.Holds (.single "res" almostOne) (999999999999999999 / 10 ^ 18) ∧
    ∃ total target difference, unitPriced.supply.amount.add (.units 100000000001) = .ok total ∧
      (unitPriced.curveIntegral total).outcome = .ok target ∧
      target.sub (unitPriced.commonBalance (.single "res" almostOne)) = .ok difference ∧
      ∀ denom ∈ unitPriced.reserves, target.toRat ≤ 999999999999999999 / 10 ^ 18 +
          ((Coins.single "res" (.units 100000000000)).roundUp.amountOf denom).toRat ↔
        ¬(999999999999999999 / 10 ^ 18 < target.toRat ∧ difference.IsInteger ∧
          difference.toRat < target.toRat - 999999999999999999 / 10 ^ 18) := by
  have hValid : (unitPriced.validate .strict).outcome = .ok () := by decide +kernel
  have hHolds : unitPriced.Holds (.single "res" almostOne) (999999999999999999 / 10 ^ 18) := by
    unfold Holds
    decide +kernel
  have hAmount : IsAmount (999999999999999999 / 10 ^ 18) :=
    ⟨999999999999999999, by unfold amountPlaces; norm_num⟩
  exact ⟨hValid, hHolds, (settlement_covers_iff (.inl rfl) hValid hHolds hAmount).1 _
    (by decide +kernel)⟩

/-- The charge for a supply of 100000000001, one unit short of its integral with what is held. -/
example : ((unitPriced.pricesToMint (.units 100000000001) (.single "res" almostOne)).outcome.map
    Coins.roundUp).toOption = some (.single "res" (.units 100000000000)) := by
  decide +kernel

end Bond

end BondingCurve
