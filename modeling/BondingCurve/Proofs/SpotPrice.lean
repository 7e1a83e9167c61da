import BondingCurve.Proofs.Decimal.Error
import BondingCurve.Proofs.Decimal.ExactPower
import BondingCurve.Proofs.Ledger.Neutrality

/-!
# The average price of a mint lies between the spot prices

The reserve of a power curve is the area under its price, so a mint costs at least the price before it and at
most the price after it, for each token minted. Where the products of the two formulas are decimals, what is left
of rounding is a division, a sum and three cuts, and the quotes keep to these bounds but for that.
-/

namespace BondingCurve

open Logged Decimal
open Ledger (safeBalance)

section Area

variable {s t : ℚ}

-- a chord of `v ↦ v ^ (n + 1)` is no flatter than the curve at its left end, no steeper than at its right
theorem tangent_mul_le_pow_sub (n : Nat) (hs : 0 ≤ s) (h : s ≤ t) :
    (n + 1) * s ^ n * (t - s) ≤ t ^ (n + 1) - s ^ (n + 1) := by
  induction n with
  | zero => simp
  | succ n ih =>
    have hStep := mul_le_mul_of_nonneg_left ih (hs.trans h)
    have hPow := mul_nonneg (mul_nonneg (by positivity : (0 : ℚ) ≤ n + 1) (pow_nonneg hs n)) (sq_nonneg (t - s))
    push_cast
    linear_combination hStep + hPow

theorem pow_sub_le_tangent_mul (n : Nat) (hs : 0 ≤ s) (h : s ≤ t) :
    t ^ (n + 1) - s ^ (n + 1) ≤ (n + 1) * t ^ n * (t - s) := by
  induction n with
  | zero => simp
  | succ n ih =>
    have hStep := mul_le_mul_of_nonneg_left ih (hs.trans h)
    have hPow := mul_le_mul_of_nonneg_right (pow_le_pow_left₀ hs h (n + 1)) (sub_nonneg.mpr h)
    push_cast
    linear_combination hStep + hPow

end Area

namespace Curve

variable {m c x price integral : Decimal} {n : UInt64} {v w : ℚ}

/-- The spot price that a power curve is meant to have. -/
def powerPrice (m : Decimal) (n : Nat) (c : Decimal) (v : ℚ) : ℚ := m.toRat * v ^ n + c.toRat

def powerReserve (m : Decimal) (n : Nat) (c : Decimal) (v : ℚ) : ℚ :=
  m.toRat * v ^ (n + 1) / (n + 1) + c.toRat * v

/-- The reserve grows by more than the lower price and less than the higher one. -/
theorem powerReserve_sub_bounds (n : Nat) (hm : 0 ≤ m.toRat) (hv : 0 ≤ v) (h : v ≤ w) :
    (w - v) * powerPrice m n c v ≤ powerReserve m n c w - powerReserve m n c v ∧
      powerReserve m n c w - powerReserve m n c v ≤ (w - v) * powerPrice m n c w := by
  have hShare : 0 ≤ m.toRat / (n + 1) := by positivity
  have hCount : (n + 1 : ℚ) ≠ 0 := by positivity
  have hArea : powerReserve m n c w - powerReserve m n c v =
      m.toRat / (n + 1) * (w ^ (n + 1) - v ^ (n + 1)) + c.toRat * (w - v) := by
    rw [powerReserve, powerReserve]
    ring
  have hLow := mul_le_mul_of_nonneg_left (tangent_mul_le_pow_sub n hv h) hShare
  have hHigh := mul_le_mul_of_nonneg_left (pow_sub_le_tangent_mul n hv h) hShare
  have hLowShare : m.toRat / (n + 1) * ((n + 1) * v ^ n * (w - v)) = m.toRat * v ^ n * (w - v) := by
    field_simp
  have hHighShare : m.toRat / (n + 1) * ((n + 1) * w ^ n * (w - v)) = m.toRat * w ^ n * (w - v) := by
    field_simp
  rw [hLowShare] at hLow
  rw [hHighShare] at hHigh
  rw [hArea, powerPrice, powerPrice]
  constructor <;> linarith

/-- Every product that the two formulas form at a supply is a decimal. -/
structure ExactProducts (m : Decimal) (n : Nat) (c : Decimal) (v : ℚ) : Prop where
  power : Exact (v ^ n)
  scaled : Exact (m.toRat * v ^ n)
  nextPower : Exact (v ^ (n + 1))
  nextScaled : Exact (m.toRat * v ^ (n + 1))
  linear : Exact (c.toRat * v)

theorem mul_toRat_of_exact {p q r : Decimal} (hExact : Exact (p.toRat * q.toRat)) (h : p.mul q = .ok r) :
    r.toRat = p.toRat * q.toRat :=
  ((computes_mul? p q).rounds (checked_eq_ok_iff.mp h)).eq_of_exact hExact

theorem power_toRat_of_exact {p : Decimal} (hx : 0 ≤ x.toRat) (hExact : Exact (x.toRat ^ n.toNat))
    (h : x.power n = .ok p) : p.toRat = x.toRat ^ n.toNat := by
  obtain ⟨q, hq, hValue⟩ := exists_pow?_of_exact hx hExact
  cases hq.symm.trans (checked_eq_ok_iff.mp h)
  exact hValue

theorem powerPrice_bounds (hm : 0 ≤ m.toRat) (hc : 0 ≤ c.toRat) (hx : 0 ≤ x.toRat)
    (hExact : ExactProducts m n.toNat c x.toRat) (h : (power m n c).priceAt x = .ok price)
    (hSmall : price.quantize.toRat < safeBalance) :
    price.quantize.toRat ≤ powerPrice m n.toNat c x.toRat + 1 / 2 / 10 ^ amountPlaces ∧
      powerPrice m n.toNat c x.toRat ≤ price.quantize.toRat + 3 / 2 / 10 ^ amountPlaces := by
  obtain ⟨p, hPower, h⟩ := bind_eq_ok_iff.mp h
  obtain ⟨scaled, hScaled, hSum⟩ := bind_eq_ok_iff.mp h
  have hPowerValue := power_toRat_of_exact hx hExact.power hPower
  have hProduct : p.toRat * m.toRat = m.toRat * x.toRat ^ n.toNat := by rw [hPowerValue, mul_comm]
  have hScaledValue := mul_toRat_of_exact (hProduct ▸ hExact.scaled) hScaled
  have hRounds := (computes_add? scaled c).rounds (checked_eq_ok_iff.mp hSum)
  rw [hScaledValue, hProduct] at hRounds
  change RoundsSigned (powerPrice m n.toNat c x.toRat) _ at hRounds
  have hNonneg : 0 ≤ powerPrice m n.toNat c x.toRat := by
    rw [powerPrice]
    positivity
  have hPrice := hRounds.nonneg hNonneg
  have hCut := quantize_le hPrice
  have hCut' := lt_quantize_add hPrice
  have hLess : price.toRat < (safeBalance + 1 : Nat) := by
    push_cast
    have hUnit : (1 : ℚ) / 10 ^ amountPlaces < 1 := by norm_num [amountPlaces]
    linarith
  obtain ⟨_, hError⟩ := hRounds.lt_and_abs_sub_le hNonneg hLess (by decide : amountPlaces ≤ 28) (by decide)
  obtain ⟨hLow, hHigh⟩ := abs_le.mp hError
  rw [amountPlaces] at hCut' hLow hHigh ⊢
  constructor <;> linarith

theorem powerReserve_bounds (hm : 0 ≤ m.toRat) (hc : 0 ≤ c.toRat) (hx : 0 ≤ x.toRat)
    (hExact : ExactProducts m n.toNat c x.toRat) (h : powerIntegral m n c x = .ok integral)
    (hSmall : integral.quantize.toRat < safeBalance) :
    integral.quantize.toRat ≤ powerReserve m n.toNat c x.toRat + 1 / 10 ^ amountPlaces ∧
      powerReserve m n.toNat c x.toRat ≤ integral.quantize.toRat + 2 / 10 ^ amountPlaces := by
  obtain ⟨_, hRefused, h⟩ := bind_eq_ok_iff.mp h
  obtain ⟨p, hPower, h⟩ := bind_eq_ok_iff.mp h
  obtain ⟨scaled, hScaled, h⟩ := bind_eq_ok_iff.mp h
  obtain ⟨area, hArea, h⟩ := bind_eq_ok_iff.mp h
  obtain ⟨linear, hLinear, hSum⟩ := bind_eq_ok_iff.mp h
  have hExponent := toNat_succ (refuseIf_eq_ok_iff.mp hRefused)
  have hPowerValue := power_toRat_of_exact hx (hExponent ▸ hExact.nextPower) hPower
  have hProduct : p.toRat * m.toRat = m.toRat * x.toRat ^ (n.toNat + 1) := by
    rw [hPowerValue, hExponent, mul_comm]
  have hScaledValue := mul_toRat_of_exact (hProduct ▸ hExact.nextScaled) hScaled
  have hLinearValue := mul_toRat_of_exact (mul_comm x.toRat c.toRat ▸ hExact.linear) hLinear
  have hDivisor : (ofWord (n + 1)).toRat = n.toNat + 1 := by
    rw [toRat_ofWord, hExponent]
    push_cast
    rfl
  have hDivisorPos : (0 : ℚ) < n.toNat + 1 := by positivity
  have hQuotient := (computes_div? (hDivisor ▸ hDivisorPos.ne')).rounds (checked_eq_ok_iff.mp hArea)
  rw [hScaledValue, hProduct, hDivisor] at hQuotient
  have hTotal := (computes_add? area linear).rounds (checked_eq_ok_iff.mp hSum)
  rw [hLinearValue] at hTotal
  have hExactArea : 0 ≤ m.toRat * x.toRat ^ (n.toNat + 1) / (n.toNat + 1) := by positivity
  have hAreaNonneg := hQuotient.nonneg hExactArea
  have hLinearNonneg : 0 ≤ x.toRat * c.toRat := by positivity
  have hIntegral := hTotal.nonneg (by positivity)
  have hCut := quantize_le hIntegral
  have hCut' := lt_quantize_add hIntegral
  have hLess : integral.toRat < (safeBalance + 1 : Nat) := by
    push_cast
    have hUnit : (1 : ℚ) / 10 ^ amountPlaces < 1 := by norm_num [amountPlaces]
    linarith
  obtain ⟨hTotalLess, hTotalError⟩ :=
    hTotal.lt_and_abs_sub_le (by positivity) hLess (by decide : amountPlaces ≤ 28) (by decide)
  obtain ⟨_, hAreaError⟩ := hQuotient.lt_and_abs_sub_le (N := safeBalance + 1) hExactArea
    (by linarith) (by decide : amountPlaces ≤ 28) (by decide)
  obtain ⟨hTotalLow, hTotalHigh⟩ := abs_le.mp hTotalError
  obtain ⟨hAreaLow, hAreaHigh⟩ := abs_le.mp hAreaError
  rw [amountPlaces] at hCut' hTotalLow hTotalHigh hAreaLow hAreaHigh ⊢
  rw [powerReserve]
  constructor <;> linarith

end Curve

namespace Bond

variable {bond : Bond} {policy : Policy} {m c amount next integral target : Decimal} {n : UInt64}
variable {prices nextPrices balances : Coins}

theorem pricesAtSupply_power_bounds (hClosed : ClosedForm bond) (hCurve : bond.curve = .ok (.power m n c))
    (hm : 0 ≤ m.toRat) (hc : 0 ≤ c.toRat) (hExact : Curve.ExactProducts m n.toNat c next.toRat)
    (h : (bond.pricesAtSupply next).outcome = .ok prices) {denom : String} (hd : denom ∈ bond.reserves)
    (hSmall : (prices.amountOf denom).toRat < safeBalance) :
    (prices.amountOf denom).toRat ≤ Curve.powerPrice m n.toNat c next.toRat + 1 / 2 / 10 ^ amountPlaces ∧
      Curve.powerPrice m n.toNat c next.toRat ≤ (prices.amountOf denom).toRat + 3 / 2 / 10 ^ amountPlaces := by
  obtain ⟨hSupply, price, hPrice, _, hCut⟩ := hClosed.exists_price_of_pricesAtSupply hCurve h
  rw [hCut denom hd] at hSmall ⊢
  exact Curve.powerPrice_bounds hm hc hSupply hExact hPrice hSmall

theorem curveIntegral_power_bounds (hCurve : bond.curve = .ok (.power m n c))
    (hm : 0 ≤ m.toRat) (hc : 0 ≤ c.toRat) (hExact : Curve.ExactProducts m n.toNat c next.toRat)
    (h : (bond.curveIntegral next).outcome = .ok integral) (hSmall : integral.toRat < safeBalance) :
    integral.toRat ≤ Curve.powerReserve m n.toNat c next.toRat + 1 / 10 ^ amountPlaces ∧
      Curve.powerReserve m n.toNat c next.toRat ≤ integral.toRat + 2 / 10 ^ amountPlaces := by
  obtain ⟨hSupply, _, hExactIntegral, rfl, _⟩ := exists_reserve_of_curveIntegral hCurve h
  exact Curve.powerReserve_bounds hm hc hSupply hExact hExactIntegral hSmall

theorem ClosedForm.pricesToMint_of_integrals (h : ClosedForm bond) (hPower : bond.family = .power)
    (hCurrent : (bond.curveIntegral bond.supply.amount).outcome = .ok integral)
    (hAmount : 0 ≤ amount.toRat) {total : Decimal} (hTotal : bond.supply.amount.add amount = .ok total)
    (hTarget : (bond.curveIntegral total).outcome = .ok target)
    (hSmall : integral.toRat < safeBalance) (hSmall' : target.toRat < safeBalance)
    (hSigns : ¬balances.AnyNegative) (hHolds : bond.Holds balances integral.toRat) :
    ∃ costs, (bond.pricesToMint amount balances).outcome = .ok costs ∧
      ∀ denom ∈ bond.reserves, (costs.amountOf denom).toRat = target.toRat - integral.toRat := by
  obtain ⟨hSupply, _⟩ := curveIntegral_eq_ok_iff.mp hCurrent
  obtain ⟨before, hBefore, hLe⟩ := h.curveIntegral_add hPower hSupply hAmount hTotal hTarget
  cases hCurrent.symm.trans hBefore
  have hIsAmount := curveIntegral_isAmount hCurrent
  have hIsAmount' := curveIntegral_isAmount hTarget
  have hExact := Ledger.exact_sub_of_amounts hIsAmount' hIsAmount (curveIntegral_nonneg hTarget)
    (curveIntegral_nonneg hCurrent) hSmall' hSmall
  have hComputes := computes_sub? target (bond.commonBalance balances)
  rw [h.commonBalance_eq hHolds] at hComputes
  obtain ⟨difference, hDifference, hValue⟩ := hComputes.eq_of_exact hExact
  have hCosts := h.pricesToMint_eq_ok_iff.mpr ⟨⟨hAmount, hSigns, hSupply⟩, total, target, difference, hTotal,
    hTarget, checked_eq_ok_iff.mpr hDifference, rfl⟩
  refine ⟨_, hCosts, fun denom hd => ?_⟩
  rw [Coins.amountOf_each _ hd, toRat_deposit_of_nonneg, hValue]
  · rw [hValue]
    exact hIsAmount'.sub hIsAmount
  · rw [hValue]
    exact sub_nonneg.mpr hLe

/-- A mint against the integral at the supply costs the amount minted at a price between the spot prices before
and after it, but for two units of the last place for each token and four for the mint. -/
theorem power_mint_between_spot_prices (hValid : (bond.validate policy).outcome = .ok ())
    (hCurve : bond.curve = .ok (.power m n c)) (hAmount : 0 ≤ amount.toRat)
    (hNext : next.toRat = bond.supply.amount.toRat + amount.toRat)
    (hExact : Curve.ExactProducts m n.toNat c bond.supply.amount.toRat)
    (hExact' : Curve.ExactProducts m n.toNat c next.toRat)
    (hPrices : (bond.pricesAtSupply bond.supply.amount).outcome = .ok prices)
    (hPrices' : (bond.pricesAtSupply next).outcome = .ok nextPrices)
    (hCurrent : (bond.curveIntegral bond.supply.amount).outcome = .ok integral)
    (hTarget : (bond.curveIntegral next).outcome = .ok target)
    (hSmallPrices : ∀ denom ∈ bond.reserves, (prices.amountOf denom).toRat < safeBalance ∧
      (nextPrices.amountOf denom).toRat < safeBalance)
    (hSmall : integral.toRat < safeBalance) (hSmall' : target.toRat < safeBalance)
    (hSigns : ¬balances.AnyNegative) (hHolds : bond.Holds balances integral.toRat) :
    ∃ costs, (bond.pricesToMint amount balances).outcome = .ok costs ∧ ∀ denom ∈ bond.reserves,
      amount.toRat * (prices.amountOf denom).toRat - (2 * amount.toRat + 4) / 10 ^ amountPlaces
        ≤ (costs.amountOf denom).toRat ∧
      (costs.amountOf denom).toRat ≤
        amount.toRat * (nextPrices.amountOf denom).toRat + (2 * amount.toRat + 4) / 10 ^ amountPlaces := by
  have hFamily : bond.family = .power := (Curve.ofParams_eq_ok_iff.mp hCurve).2.1.symm
  have hClosed := closedForm_of_validate (.inl hFamily) hValid
  obtain ⟨hSupply, _⟩ := curveIntegral_eq_ok_iff.mp hCurrent
  obtain ⟨hm, hc⟩ := hClosed.power_signs hCurve
  -- the new supply need not be written as `next` is, but its powers are exact as well
  have hSum := computes_add? bond.supply.amount amount
  rw [← hNext] at hSum
  obtain ⟨total, hTotal, hTotalValue⟩ := hSum.eq_of_exact next.exact_toRat
  have hNextNonneg : 0 ≤ next.toRat := by linarith
  have hAgree : bond.PowersAgree 1 next total := by
    intro curve hCurve'
    cases hCurve.symm.trans hCurve'
    exact powersAgree_of_exact hNextNonneg hExact'.nextPower
  have hTargetTotal := curveIntegral_eq_of_sameValue (by rw [hFamily]; decide) hTotalValue.symm hAgree hTarget
  obtain ⟨costs, hCosts, hCost⟩ := hClosed.pricesToMint_of_integrals hFamily hCurrent hAmount
    (checked_eq_ok_iff.mpr hTotal) hTargetTotal hSmall hSmall' hSigns hHolds
  refine ⟨costs, hCosts, fun denom hd => ?_⟩
  obtain ⟨hPriceSmall, hPriceSmall'⟩ := hSmallPrices denom hd
  obtain ⟨hPrice, _⟩ :=
    pricesAtSupply_power_bounds hClosed hCurve hm hc hExact hPrices hd hPriceSmall
  obtain ⟨_, hPrice'⟩ :=
    pricesAtSupply_power_bounds hClosed hCurve hm hc hExact' hPrices' hd hPriceSmall'
  obtain ⟨hIntegral, hIntegral'⟩ := curveIntegral_power_bounds hCurve hm hc hExact hCurrent hSmall
  obtain ⟨hNextIntegral, hNextIntegral'⟩ :=
    curveIntegral_power_bounds hCurve hm hc hExact' hTarget hSmall'
  obtain ⟨hArea, hArea'⟩ := Curve.powerReserve_sub_bounds (c := c) n.toNat hm hSupply
    (by linarith : bond.supply.amount.toRat ≤ next.toRat)
  have hStep : next.toRat - bond.supply.amount.toRat = amount.toRat := by linarith
  rw [hStep] at hArea hArea'
  have hBefore := mul_le_mul_of_nonneg_left hPrice hAmount
  have hAfter := mul_le_mul_of_nonneg_left hPrice' hAmount
  rw [hCost denom hd]
  rw [amountPlaces] at hBefore hAfter hIntegral hIntegral' hNextIntegral hNextIntegral' ⊢
  constructor <;> linarith

/-- Price `x² + 1/2` and reserve `x³/3 + x/2`, at supply 1.5. -/
def squarePriced : Bond :=
  { powerBond 1 (.units 2) (.scaled 5 1) with supply := ⟨"unit", .scaled 15 1⟩ }

def squareReserve : Coins := .single "res" (.scaled 1875 3)

theorem power_mint_between_spot_prices_squarePriced :
    (squarePriced.validate .strict).outcome = .ok () ∧
    (squarePriced.curveIntegral (.scaled 15 1)).outcome = .ok (.scaled 1875 3) ∧
    (squarePriced.pricesToMint (.scaled 25 2) squareReserve).outcome =
      .ok (.single "res" (.scaled 786458333333333333 amountPlaces)) ∧
    (scaled 25 2).toRat * (scaled 275 2).toRat - (2 * (scaled 25 2).toRat + 4) / 10 ^ amountPlaces ≤
      (scaled 786458333333333333 amountPlaces).toRat ∧
    (scaled 786458333333333333 amountPlaces).toRat ≤
      (scaled 25 2).toRat * (scaled 35625 4).toRat + (2 * (scaled 25 2).toRat + 4) / 10 ^ amountPlaces := by
  have hValid : (squarePriced.validate .strict).outcome = .ok () := by decide +kernel
  have hExact : Curve.ExactProducts 1 (2 : UInt64).toNat (.scaled 5 1) (scaled 15 1).toRat := by
    constructor
    · exact ⟨.scaled 225 2, by decide +kernel⟩
    · exact ⟨.scaled 225 2, by decide +kernel⟩
    · exact ⟨.scaled 3375 3, by decide +kernel⟩
    · exact ⟨.scaled 3375 3, by decide +kernel⟩
    · exact ⟨.scaled 75 2, by decide +kernel⟩
  have hExact' : Curve.ExactProducts 1 (2 : UInt64).toNat (.scaled 5 1) (scaled 175 2).toRat := by
    constructor
    · exact ⟨.scaled 30625 4, by decide +kernel⟩
    · exact ⟨.scaled 30625 4, by decide +kernel⟩
    · exact ⟨.scaled 5359375 6, by decide +kernel⟩
    · exact ⟨.scaled 5359375 6, by decide +kernel⟩
    · exact ⟨.scaled 875 3, by decide +kernel⟩
  have hIntegral : (squarePriced.curveIntegral (.scaled 15 1)).outcome = .ok (.scaled 1875 3) := by
    decide +kernel
  have hCost : (squarePriced.pricesToMint (.scaled 25 2) squareReserve).outcome =
      .ok (.single "res" (.scaled 786458333333333333 amountPlaces)) := by decide +kernel
  have hTarget : (squarePriced.curveIntegral (.scaled 175 2)).outcome =
      .ok (.scaled 2661458333333333333 amountPlaces) := by decide +kernel
  have hPrices : (squarePriced.pricesAtSupply (.scaled 15 1)).outcome = .ok (.single "res" (.scaled 275 2)) := by
    decide +kernel
  have hPrices' : (squarePriced.pricesAtSupply (.scaled 175 2)).outcome =
      .ok (.single "res" (.scaled 35625 4)) := by decide +kernel
  have hHolds : squarePriced.Holds squareReserve (scaled 1875 3).toRat := by
    rw [Bond.Holds]
    decide +kernel
  obtain ⟨costs, hCosts, hBounds⟩ := power_mint_between_spot_prices hValid (by decide +kernel)
    (by decide +kernel : 0 ≤ (scaled 25 2).toRat) (by decide +kernel) hExact hExact' hPrices hPrices' hIntegral
    hTarget (by decide +kernel) (by decide +kernel) (by decide +kernel) (by decide +kernel) hHolds
  cases hCost.symm.trans hCosts
  exact ⟨hValid, hIntegral, hCost, hBounds "res" (by decide +kernel)⟩

end Bond

end BondingCurve
