import BondingCurve.Bond.Validation
import BondingCurve.Proofs.Params

/-!
# Which bonds are accepted

One condition for each check. No policy is part of it: a legal parameter list has no repeated name that a
policy could ask about.
-/

namespace BondingCurve

open Logged Decimal

namespace Bond

variable {bond : Bond} {policy : Policy} {supply : Decimal} {u : Unit}

theorem currentSupply_eq_ok_iff :
    bond.currentSupply.outcome = .ok supply ↔ 0 ≤ bond.supply.amount.toRat ∧ bond.supply.amount = supply := by
  unfold currentSupply
  split
  · rename_i hNegative
    have hSign : bond.supply.amount.toRat < 0 := Decimal.lt_zero_iff_toRat.mp hNegative
    constructor
    · intro h
      cases h
    · intro h
      exact absurd h.1 (not_le.mpr hSign)
  · rename_i hNonneg
    have hSign : 0 ≤ bond.supply.amount.toRat := not_lt.mp (mt Decimal.lt_zero_iff_toRat.mpr hNonneg)
    rw [outcome_pure, Except.ok.injEq]
    exact ⟨fun h => ⟨hSign, h⟩, fun h => h.2⟩

theorem validateParams_eq_ok_iff : bond.validateParams policy = .ok u ↔ bond.params.Legal bond.family := by
  rw [validateParams]
  split
  · exact Params.validateStrict_eq_ok_iff.trans Params.validate_eq_ok_iff_legal
  · exact Params.validate_eq_ok_iff_legal

theorem validateReserves_eq_ok_iff : bond.validateReserves = .ok u ↔
    bond.family.reserveCount.Accepts bond.reserves.length ∧ bond.reserves.Pairwise (· < ·) := by
  simp only [validateReserves, bind_eq_ok_iff, refuseIf_eq_ok_iff, not_not]
  constructor
  · rintro ⟨_, h⟩
    exact h
  · intro h
    exact ⟨(), h⟩

theorem totalFees_eq_ok_iff {total : Decimal} :
    bond.totalFees = .ok total ↔ bond.txFee.add? bond.exitFee = some total := by
  rw [totalFees]
  split <;> simp_all

theorem validateFees_eq_ok_iff : bond.validateFees = .ok u ↔
    0 ≤ bond.txFee.toRat ∧ 0 ≤ bond.exitFee.toRat ∧
      ∃ total, bond.txFee.add? bond.exitFee = some total ∧ total.toRat < hundred.toRat := by
  simp only [validateFees, bind_eq_ok_iff, ensureNonNegative_eq_ok_iff, totalFees_eq_ok_iff,
    refuseIf_eq_ok_iff, le_iff_toRat_le, not_le]
  constructor
  · rintro ⟨_, hTx, _, hExit, hTotal⟩
    exact ⟨hTx, hExit, hTotal⟩
  · rintro ⟨hTx, hExit, hTotal⟩
    exact ⟨(), hTx, (), hExit, hTotal⟩

theorem validateMaxSupply_eq_ok_iff : bond.validateMaxSupply = .ok u ↔
    bond.maxSupply.denom = bond.token ∧ 0 ≤ bond.maxSupply.amount.toRat := by
  simp only [validateMaxSupply, bind_eq_ok_iff, refuseIf_eq_ok_iff, not_not, Coin.IsNegative,
    lt_zero_iff_toRat, not_lt]
  constructor
  · rintro ⟨_, h⟩
    exact h
  · intro h
    exact ⟨(), h⟩

/-- What the checks of a bond establish. -/
structure Accepted (bond : Bond) : Prop where
  params : bond.params.Legal bond.family
  count : bond.family.reserveCount.Accepts bond.reserves.length
  ascending : bond.reserves.Pairwise (· < ·)
  limits : ¬bond.orderLimits.AnyNegative
  txFee : 0 ≤ bond.txFee.toRat
  exitFee : 0 ≤ bond.exitFee.toRat
  fees : ∃ total, bond.txFee.add? bond.exitFee = some total ∧ total.toRat < hundred.toRat
  sanityRate : 0 ≤ bond.sanityRate.toRat
  sanityMargin : 0 ≤ bond.sanityMargin.toRat
  cap_denom : bond.maxSupply.denom = bond.token
  cap : 0 ≤ bond.maxSupply.amount.toRat
  supply : 0 ≤ bond.supply.amount.toRat

theorem validate_eq_ok_iff : (bond.validate policy).outcome = .ok u ↔ bond.Accepted := by
  simp only [validate, outcome_bind_eq_ok_iff, outcome_liftM, validateParams_eq_ok_iff,
    validateReserves_eq_ok_iff, refuseIf_eq_ok_iff, validateFees_eq_ok_iff, ensureNonNegative_eq_ok_iff,
    validateMaxSupply_eq_ok_iff, currentSupply_eq_ok_iff, outcome_pure]
  constructor
  · rintro ⟨_, hParams, _, ⟨hCount, hAscending⟩, _, hLimits, _, ⟨hTx, hExit, hFees⟩, _, hRate, _, hMargin,
      _, ⟨hDenom, hCap⟩, _, ⟨hSupply, _⟩, _⟩
    exact ⟨hParams, hCount, hAscending, hLimits, hTx, hExit, hFees, hRate, hMargin, hDenom, hCap, hSupply⟩
  · intro h
    exact ⟨(), h.params, (), ⟨h.count, h.ascending⟩, (), h.limits, (), ⟨h.txFee, h.exitFee, h.fees⟩, (),
      h.sanityRate, (), h.sanityMargin, (), ⟨h.cap_denom, h.cap⟩, _, ⟨h.supply, rfl⟩, trivial⟩

end Bond

/-- Validation accepts the legal parameter sets and no others, whether or not the policy looks for
repeated names. A legal set has a curve unless its exponent is too large for a word or a zero under a
minus sign; the curve carries the values entered, in whatever order they were. -/
theorem Params.accepts_iff_legal (params : Params) (family : Family) :
    (params.validate family = .ok () ↔ params.Legal family) ∧
    (params.validateStrict family = .ok () ↔ params.validate family = .ok ()) ∧
    (∀ (bond : Bond) (policy policy' : Policy),
      (bond.validate policy).outcome = .ok () ↔ (bond.validate policy').outcome = .ok ()) ∧
    ((∃ curve, Curve.ofParams family params = .ok curve) ↔
      params.validate family = .ok () ∧ Curve.ExponentFits params family) ∧
    ∀ curve, Curve.ofParams family params = .ok curve →
      curve.family = family ∧ curve.Carries params ∧
        ∀ reordered : Params, reordered.toList.Perm params.toList →
          Curve.ofParams family reordered = .ok curve := by
  refine ⟨validate_eq_ok_iff_legal, validateStrict_eq_ok_iff, fun bond policy policy' =>
    Bond.validate_eq_ok_iff.trans Bond.validate_eq_ok_iff.symm, ?_, ?_⟩
  · rw [validate_eq_ok_iff_legal]
    constructor
    · rintro ⟨curve, h⟩
      exact ⟨Curve.legal_of_ofParams h, Curve.exponentFits_of_ofParams h⟩
    · rintro ⟨hLegal, hFits⟩
      exact Curve.exists_ofParams hLegal hFits
  · intro curve h
    obtain ⟨hLegal, hFamily, hCarries⟩ := Curve.ofParams_eq_ok_iff.mp h
    refine ⟨hFamily, hCarries, fun reordered hOrder => ?_⟩
    exact Curve.ofParams_eq_ok_iff.mpr ⟨hLegal.reorder hOrder, hFamily, hCarries.reorder hOrder⟩

end BondingCurve
