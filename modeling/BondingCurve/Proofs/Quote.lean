import BondingCurve.Bond.Quote
import BondingCurve.Proofs.Coins
import BondingCurve.Proofs.Curve
import BondingCurve.Proofs.Validation

/-!
# What a closed-form quote consists of

A quote of a power or sigmoid bond succeeds exactly when each of its steps does: the signs, the new
supply, the integral there, and one difference with the common balance.
-/

namespace BondingCurve

open Logged

namespace Curve

variable {params : Params} {curve : Curve}

theorem ofParams_power (h : ofParams .power params = .ok curve) :
    ∃ m n c, curve = power m n c ∧ 0 ≤ m.toRat ∧ 0 ≤ c.toRat := by
  obtain ⟨hLegal, hFamily, hCarries⟩ := ofParams_eq_ok_iff.mp h
  cases curve with
  | power m n c =>
    obtain ⟨hm, _, hc⟩ := hCarries
    exact ⟨m, n, c, rfl, hLegal.nonneg ⟨"m", m⟩ hm, hLegal.nonneg ⟨"c", c⟩ hc⟩
  | sigmoid | swapper | augmented => cases hFamily

theorem ofParams_sigmoid (h : ofParams .sigmoid params = .ok curve) :
    ∃ a b c, curve = sigmoid a b c ∧ 0 ≤ a.toRat ∧ 0 ≤ b.toRat ∧ 0 < c.toRat := by
  obtain ⟨hLegal, hFamily, hCarries⟩ := ofParams_eq_ok_iff.mp h
  cases curve with
  | sigmoid a b c =>
    obtain ⟨ha, hb, hc⟩ := hCarries
    exact ⟨a, b, c, rfl, hLegal.nonneg ⟨"a", a⟩ ha, hLegal.nonneg ⟨"b", b⟩ hb,
      hLegal.positive rfl c hc⟩
  | power | swapper | augmented => cases hFamily

theorem ofParams_swapper (h : ofParams .swapper params = .ok curve) : curve = swapper := by
  obtain ⟨_, hFamily, _⟩ := ofParams_eq_ok_iff.mp h
  cases curve with
  | swapper => rfl
  | power | sigmoid | augmented => cases hFamily

end Curve

namespace Bond

variable {bond : Bond} {amount supply integral : Decimal} {balances coins : Coins} {curve : Curve}

/-- A power or sigmoid bond with distinct reserve tokens, in order. -/
structure ClosedForm (bond : Bond) : Prop where
  family : bond.family = .power ∨ bond.family = .sigmoid
  ascending : bond.reserves.Pairwise (· < ·)
  nonempty : bond.reserves ≠ []

theorem ClosedForm.not_augmented (h : ClosedForm bond) : bond.family ≠ .augmented := by
  rcases h.family with hFamily | hFamily <;> rw [hFamily] <;> decide

theorem closedForm_of_validate {policy : Policy} (hFamily : bond.family = .power ∨ bond.family = .sigmoid)
    (h : (bond.validate policy).outcome = .ok ()) : ClosedForm bond := by
  have hAccepted := validate_eq_ok_iff.mp h
  have hCount := hAccepted.count
  refine ⟨hFamily, hAccepted.ascending, ?_⟩
  intro hNil
  rcases hFamily with hFamily | hFamily <;>
  · rw [hFamily, hNil] at hCount
    exact absurd hCount (Nat.lt_irrefl 0)

theorem integralOf_eq_ok_iff :
    (bond.integralOf curve supply).outcome = .ok integral ↔
      ∃ exact, (curve.integral supply).outcome = .ok exact ∧ exact.quantize = integral ∧
        0 ≤ integral.toRat := by
  unfold integralOf
  rw [outcome_bind_eq_ok_iff]
  refine exists_congr fun exact => and_congr_right fun _ => ?_
  rw [outcome_bind_eq_ok_iff]
  constructor
  · rintro ⟨_, hSign, hResult⟩
    cases hResult
    exact ⟨rfl, not_lt.mp (mt Decimal.lt_zero_iff_toRat.mpr (outcome_violateIf_eq_ok_iff.mp hSign))⟩
  · rintro ⟨rfl, hSign⟩
    exact ⟨(), outcome_violateIf_eq_ok_iff.mpr (mt Decimal.lt_zero_iff_toRat.mp (not_lt.mpr hSign)), rfl⟩

theorem curveIntegral_eq_ok_iff :
    (bond.curveIntegral supply).outcome = .ok integral ↔
      0 ≤ supply.toRat ∧ ∃ curve, bond.curve = .ok curve ∧
        (bond.integralOf curve supply).outcome = .ok integral := by
  unfold curveIntegral
  rw [outcome_bind_eq_ok_iff]
  simp only [outcome_liftM, outcome_bind_eq_ok_iff, Decimal.ensureNonNegative_eq_ok_iff]
  exact ⟨fun ⟨_, hSign, h⟩ => ⟨hSign, h⟩, fun ⟨hSign, h⟩ => ⟨(), hSign, h⟩⟩

/-- What an integral is cut from. -/
theorem exists_reserve_of_curveIntegral (hCurve : bond.curve = .ok curve)
    (h : (bond.curveIntegral supply).outcome = .ok integral) :
    0 ≤ supply.toRat ∧ ∃ exact, (curve.integral supply).outcome = .ok exact ∧ exact.quantize = integral ∧
      0 ≤ integral.toRat := by
  obtain ⟨hSupply, _, hCurve', hIntegral⟩ := curveIntegral_eq_ok_iff.mp h
  cases hCurve.symm.trans hCurve'
  exact ⟨hSupply, integralOf_eq_ok_iff.mp hIntegral⟩

theorem curveIntegral_nonneg (h : (bond.curveIntegral supply).outcome = .ok integral) :
    0 ≤ integral.toRat := by
  obtain ⟨_, _, _, h⟩ := curveIntegral_eq_ok_iff.mp h
  obtain ⟨_, _, _, hSign⟩ := integralOf_eq_ok_iff.mp h
  exact hSign

theorem curveIntegral_isAmount (h : (bond.curveIntegral supply).outcome = .ok integral) :
    Decimal.IsAmount integral.toRat := by
  obtain ⟨_, _, _, h⟩ := curveIntegral_eq_ok_iff.mp h
  obtain ⟨exact, _, rfl, _⟩ := integralOf_eq_ok_iff.mp h
  exact Decimal.isAmount_quantize exact

theorem ClosedForm.curve_cases (h : ClosedForm bond) (hCurve : bond.curve = .ok curve) :
    (∃ m n c, curve = .power m n c ∧ 0 ≤ m.toRat ∧ 0 ≤ c.toRat) ∨
      ∃ a b c, curve = .sigmoid a b c ∧ 0 ≤ a.toRat ∧ 0 ≤ b.toRat ∧ 0 < c.toRat := by
  unfold Bond.curve at hCurve
  rcases h.family with hFamily | hFamily
  · rw [hFamily] at hCurve
    exact .inl (Curve.ofParams_power hCurve)
  · rw [hFamily] at hCurve
    exact .inr (Curve.ofParams_sigmoid hCurve)

theorem ClosedForm.power_signs (h : ClosedForm bond) {m c : Decimal} {n : UInt64}
    (hCurve : bond.curve = .ok (.power m n c)) :
    0 ≤ m.toRat ∧ 0 ≤ c.toRat := by
  rcases h.curve_cases hCurve with ⟨_, _, _, hEq, hSigns⟩ | ⟨_, _, _, hEq, _⟩
  · cases hEq
    exact hSigns
  · cases hEq

theorem ClosedForm.sigmoid_signs (h : ClosedForm bond) {a b c : Decimal}
    (hCurve : bond.curve = .ok (.sigmoid a b c)) :
    0 ≤ a.toRat ∧ 0 ≤ b.toRat ∧ 0 < c.toRat := by
  rcases h.curve_cases hCurve with ⟨_, _, _, hEq, _⟩ | ⟨_, _, _, hEq, hSigns⟩
  · cases hEq
  · cases hEq
    exact hSigns

/-- No supply, no reserve. -/
theorem ClosedForm.curveIntegral_zero (hClosed : ClosedForm bond) (hSupply : supply.toRat = 0)
    (h : (bond.curveIntegral supply).outcome = .ok integral) : integral.toRat = 0 := by
  obtain ⟨_, curve, hCurve, h⟩ := curveIntegral_eq_ok_iff.mp h
  obtain ⟨exact, hExact, rfl, _⟩ := integralOf_eq_ok_iff.mp h
  have hZero : exact.toRat = 0 := by
    rcases hClosed.curve_cases hCurve with ⟨m, n, c, rfl, _⟩ | ⟨a, b, c, rfl, _, hb, _⟩
    · exact Curve.powerIntegral_zero hSupply hExact
    · exact Curve.sigmoidIntegral_zero hb hSupply hExact
  rw [Decimal.toRat_quantize_of_isAmount, hZero]
  rw [hZero]
  exact OnGrid.intCast _ 0

/-- The deposit asked for when the integral is `difference` above the reserve. -/
def deposit (difference : Decimal) : Decimal :=
  if difference.quantize < 0 then minMintPrice else difference.quantize

theorem depositFor_eq_ok_iff {target reserve price : Decimal} :
    (bond.depositFor target reserve).outcome = .ok price ↔
      ∃ difference, target.sub reserve = .ok difference ∧ deposit difference = price := by
  unfold depositFor
  rw [outcome_bind_eq_ok_iff]
  refine exists_congr fun difference => ?_
  rw [outcome_liftM]
  refine and_congr_right fun _ => ?_
  dsimp only
  unfold deposit
  by_cases hExcess : difference.quantize < 0
  · rw [if_pos hExcess, if_pos hExcess, outcome_bind_eq_ok_iff]
    constructor
    · rintro ⟨_, _, hPrice⟩
      cases hPrice
      rfl
    · rintro rfl
      exact ⟨(), rfl, rfl⟩
  · rw [if_neg hExcess, if_neg hExcess, outcome_pure, Except.ok.injEq]

theorem payoutFor_eq_ok_iff {remaining reserve payout : Decimal} :
    (payoutFor remaining reserve).outcome = .ok payout ↔
      remaining.toRat ≤ reserve.toRat ∧
        ∃ difference, reserve.sub remaining = .ok difference ∧ difference.quantize = payout := by
  unfold payoutFor
  simp only [outcome_bind_eq_ok_iff, outcome_violateIf_eq_ok_iff, outcome_liftM, outcome_pure,
    Except.ok.injEq, Decimal.lt_iff_toRat_lt, not_lt]
  exact ⟨fun ⟨_, hLe, h⟩ => ⟨hLe, h⟩, fun ⟨hLe, h⟩ => ⟨(), hLe, h⟩⟩

theorem ClosedForm.reserveCoins_eq (h : ClosedForm bond) (amount : Decimal) :
    bond.reserveCoins amount = .ok (Coins.each bond.reserves h.ascending fun _ => amount) :=
  Coins.uniform_each h.ascending amount

/-- A spot price is one amount for every reserve token, cut from the price of the curve. -/
theorem ClosedForm.pricesAtSupply_eq_ok_iff (h : ClosedForm bond) :
    (bond.pricesAtSupply supply).outcome = .ok coins ↔
      0 ≤ supply.toRat ∧ ∃ curve price, bond.curve = .ok curve ∧ curve.priceAt supply = .ok price ∧
        0 ≤ price.quantize.toRat ∧
        Coins.each bond.reserves h.ascending (fun _ => price.quantize) = coins := by
  simp only [pricesAtSupply, outcome_bind_eq_ok_iff, outcome_liftM, Decimal.ensureNonNegative_eq_ok_iff,
    outcome_violateIf_eq_ok_iff, Decimal.lt_zero_iff_toRat, not_lt, h.reserveCoins_eq, Except.ok.injEq]
  constructor
  · rintro ⟨_, hSupply, curve, hCurve, price, hPrice, _, hSign, _, _, hCoins⟩
    exact ⟨hSupply, curve, price, hCurve, hPrice, hSign, hCoins⟩
  · rintro ⟨hSupply, curve, price, hCurve, hPrice, hSign, hCoins⟩
    exact ⟨(), hSupply, curve, hCurve, price, hPrice, (), hSign, (), rfl, hCoins⟩

/-- What spot prices are cut from. -/
theorem ClosedForm.exists_price_of_pricesAtSupply (h : ClosedForm bond) (hCurve : bond.curve = .ok curve)
    (hPrices : (bond.pricesAtSupply supply).outcome = .ok coins) :
    0 ≤ supply.toRat ∧ ∃ price, curve.priceAt supply = .ok price ∧ 0 ≤ price.quantize.toRat ∧
      ∀ denom ∈ bond.reserves, coins.amountOf denom = price.quantize := by
  obtain ⟨hSupply, _, price, hCurve', hPrice, hSign, rfl⟩ := h.pricesAtSupply_eq_ok_iff.mp hPrices
  cases hCurve.symm.trans hCurve'
  exact ⟨hSupply, price, hPrice, hSign, fun _ hd => Coins.amountOf_each _ hd⟩

theorem ClosedForm.quoteMint_eq_ok_iff (h : ClosedForm bond) {price : Decimal} :
    (bond.quoteMint amount supply price).outcome = .ok coins ↔
      Coins.each bond.reserves h.ascending (fun _ => price) = coins := by
  unfold quoteMint
  rw [outcome_bind_eq_ok_iff, outcome_liftM, h.reserveCoins_eq, Except.ok.injEq]
  exact ⟨fun ⟨_, _, hCoins⟩ => hCoins, fun hCoins => ⟨(), rfl, hCoins⟩⟩

theorem ClosedForm.quoteBurn_eq_ok_iff (h : ClosedForm bond) {payout : Decimal} :
    (bond.quoteBurn amount supply payout).outcome = .ok coins ↔
      Coins.each bond.reserves h.ascending (fun _ => payout) = coins := by
  unfold quoteBurn
  rw [outcome_bind_eq_ok_iff, outcome_liftM, h.reserveCoins_eq, Except.ok.injEq]
  exact ⟨fun ⟨_, _, hCoins⟩ => hCoins, fun hCoins => ⟨(), rfl, hCoins⟩⟩

theorem add_nonneg_of_add {x y total : Decimal} (hx : 0 ≤ x.toRat) (hy : 0 ≤ y.toRat)
    (h : x.add y = .ok total) : 0 ≤ total.toRat :=
  ((Decimal.computes_add? x y).rounds (Decimal.checked_eq_ok_iff.mp h)).nonneg (add_nonneg hx hy)

theorem sub_nonneg_of_sub {x y rest : Decimal} (hLe : y.toRat ≤ x.toRat)
    (h : x.sub y = .ok rest) : 0 ≤ rest.toRat :=
  ((Decimal.computes_sub? x y).rounds (Decimal.checked_eq_ok_iff.mp h)).nonneg (sub_nonneg.mpr hLe)

theorem ClosedForm.pricesToMint_eq_ok_iff (h : ClosedForm bond) :
    (bond.pricesToMint amount balances).outcome = .ok coins ↔
      (0 ≤ amount.toRat ∧ ¬balances.AnyNegative ∧ 0 ≤ bond.supply.amount.toRat) ∧
        ∃ total target difference, bond.supply.amount.add amount = .ok total ∧
          (bond.curveIntegral total).outcome = .ok target ∧
          target.sub (bond.commonBalance balances) = .ok difference ∧
          Coins.each bond.reserves h.ascending (fun _ => deposit difference) = coins := by
  unfold pricesToMint
  simp only [outcome_bind_eq_ok_iff, outcome_liftM, Decimal.ensureNonNegative_eq_ok_iff,
    currentSupply_eq_ok_iff]
  constructor
  · rintro ⟨_, hAmount, _, hBalances, _, ⟨hSupply, rfl⟩, curve, hCurve, hQuote⟩
    refine ⟨⟨hAmount, refuseIf_eq_ok_iff.mp hBalances, hSupply⟩, ?_⟩
    rcases h.curve_cases hCurve with ⟨m, n, c, rfl, _⟩ | ⟨a, b, c, rfl, _⟩ <;>
    · simp only [outcome_bind_eq_ok_iff, outcome_liftM, depositFor_eq_ok_iff,
        h.quoteMint_eq_ok_iff] at hQuote
      obtain ⟨total, hTotal, target, hTarget, _, ⟨difference, hDifference, rfl⟩, rfl⟩ := hQuote
      exact ⟨total, target, difference, hTotal, curveIntegral_eq_ok_iff.mpr
        ⟨add_nonneg_of_add hSupply hAmount hTotal, _, hCurve, hTarget⟩, hDifference, rfl⟩
  · rintro ⟨⟨hAmount, hBalances, hSupply⟩, total, target, difference, hTotal, hTarget, hDifference, rfl⟩
    obtain ⟨_, curve, hCurve, hTarget⟩ := curveIntegral_eq_ok_iff.mp hTarget
    refine ⟨(), hAmount, (), refuseIf_eq_ok_iff.mpr hBalances, _, ⟨hSupply, rfl⟩, curve, hCurve, ?_⟩
    rcases h.curve_cases hCurve with ⟨m, n, c, rfl, _⟩ | ⟨a, b, c, rfl, _⟩ <;>
    · simp only [outcome_bind_eq_ok_iff, outcome_liftM, depositFor_eq_ok_iff,
        h.quoteMint_eq_ok_iff]
      exact ⟨total, hTotal, target, hTarget, _, ⟨difference, hDifference, rfl⟩, rfl⟩

theorem ClosedForm.returnsForBurn_eq_ok_iff (h : ClosedForm bond) :
    (bond.returnsForBurn amount balances).outcome = .ok coins ↔
      (0 ≤ amount.toRat ∧ ¬balances.AnyNegative ∧ 0 ≤ bond.supply.amount.toRat) ∧
        amount.toRat ≤ bond.supply.amount.toRat ∧
        ∃ rest remaining difference, bond.supply.amount.sub amount = .ok rest ∧
          (bond.curveIntegral rest).outcome = .ok remaining ∧
          remaining.toRat ≤ (bond.commonBalance balances).toRat ∧
          (bond.commonBalance balances).sub remaining = .ok difference ∧
          Coins.each bond.reserves h.ascending (fun _ => difference.quantize) = coins := by
  unfold returnsForBurn
  simp only [outcome_bind_eq_ok_iff, outcome_liftM, Decimal.ensureNonNegative_eq_ok_iff,
    currentSupply_eq_ok_iff, refuseIf_eq_ok_iff, Decimal.lt_iff_toRat_lt, not_lt]
  constructor
  · rintro ⟨_, hAmount, _, hBalances, _, ⟨hSupply, rfl⟩, curve, hCurve, _, hEnough, hQuote⟩
    refine ⟨⟨hAmount, refuseIf_eq_ok_iff.mp hBalances, hSupply⟩, hEnough, ?_⟩
    rcases h.curve_cases hCurve with ⟨m, n, c, rfl, _⟩ | ⟨a, b, c, rfl, _⟩ <;>
    · simp only [outcome_bind_eq_ok_iff, outcome_liftM, payoutFor_eq_ok_iff,
        h.quoteBurn_eq_ok_iff] at hQuote
      obtain ⟨rest, hRest, remaining, hRemaining, _, ⟨hLe, difference, hDifference, rfl⟩, rfl⟩ := hQuote
      exact ⟨rest, remaining, difference, hRest, curveIntegral_eq_ok_iff.mpr
        ⟨sub_nonneg_of_sub hEnough hRest, _, hCurve, hRemaining⟩, hLe, hDifference, rfl⟩
  · rintro ⟨⟨hAmount, hBalances, hSupply⟩, hEnough, rest, remaining, difference, hRest, hRemaining, hLe,
      hDifference, rfl⟩
    obtain ⟨_, curve, hCurve, hRemaining⟩ := curveIntegral_eq_ok_iff.mp hRemaining
    refine ⟨(), hAmount, (), refuseIf_eq_ok_iff.mpr hBalances, _, ⟨hSupply, rfl⟩, curve, hCurve, (),
      hEnough, ?_⟩
    rcases h.curve_cases hCurve with ⟨m, n, c, rfl, _⟩ | ⟨a, b, c, rfl, _⟩ <;>
    · simp only [outcome_bind_eq_ok_iff, outcome_liftM, payoutFor_eq_ok_iff,
        h.quoteBurn_eq_ok_iff]
      exact ⟨rest, hRest, remaining, hRemaining, _, ⟨hLe, difference, hDifference, rfl⟩, rfl⟩

end Bond

end BondingCurve
