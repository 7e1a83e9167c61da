import BondingCurve.Proofs.Decimal.Error
import BondingCurve.Proofs.Ledger.Orders
import BondingCurve.Proofs.Swap

/-!
# Shares of a swapper's reserves

A change of a swapper's supply moves every reserve by the same share of its own balance. The share is one
rounded quotient, each movement a rounded product cut to an amount. Exactly, liquidity that is added for
whole units and removed again returns at most what it cost, since the price paid is at least its share.
The roundings are off by far less than a unit as long as balances and prices are of ordinary size, and what
is returned is cut to whole units, so nothing is gained by them either.
-/

namespace BondingCurve

open Logged Decimal

namespace Logged

variable {α β : Type}

theorem outcome_mapM (f : α → Logged β) (as : List α) :
    (as.mapM f).outcome = as.mapM fun a => (f a).outcome := by
  induction as with
  | nil => rfl
  | cons a as ih =>
    rw [List.mapM_cons, List.mapM_cons, outcome_bind]
    congr 1
    funext b
    rw [outcome_bind, ih]
    rfl

end Logged

theorem mapM_outcome_eq_ok_iff {denoms : List String} {coins : List Coin} {move : String → Logged Decimal} :
    (denoms.mapM fun denom => do return Coin.mk denom (← move denom)).outcome = .ok coins ↔
      ∃ f : String → Decimal, (∀ denom ∈ denoms, (move denom).outcome = .ok (f denom)) ∧
        (denoms.map fun denom => ⟨denom, f denom⟩) = coins := by
  rw [outcome_mapM, ← mapM_eq_ok_iff]
  have hSteps : (fun denom => (do return Coin.mk denom (← move denom) : Logged Coin).outcome) =
      fun denom => do return Coin.mk denom (← (move denom).outcome) := by
    funext denom
    rw [outcome_bind]
    rfl
  rw [hSteps]

namespace Bond

variable {bond : Bond} {policy : Policy} {amount delta share balance moved : Decimal} {balances coins : Coins}

structure Pool (bond : Bond) : Prop where
  family : bond.family = .swapper
  curve : bond.curve = .ok .swapper
  ascending : bond.reserves.Pairwise (· < ·)
  count : bond.reserves.length = 2

theorem pool_of_validate (hFamily : bond.family = .swapper) (h : (bond.validate policy).outcome = .ok ()) :
    Pool bond := by
  have hAccepted := validate_eq_ok_iff.mp h
  have hLegal := hAccepted.params
  have hCount := hAccepted.count
  rw [hFamily] at hLegal hCount
  refine ⟨hFamily, ?_, hAccepted.ascending, Eq.symm hCount⟩
  obtain ⟨curve, hCurve⟩ := Curve.exists_ofParams hLegal (by
    intro hPower
    cases hPower)
  rw [Bond.curve, hFamily, hCurve, Curve.ofParams_swapper hCurve]

/-- What moves of a balance: its product with the share, cut to an amount. -/
def Moves (share balance moved : Decimal) : Prop :=
  ∃ product, share.mul balance = .ok product ∧ product.quantize = moved ∧ 0 ≤ moved.toRat

theorem Moves.nonneg (h : Moves share balance moved) : 0 ≤ moved.toRat := by
  obtain ⟨_, _, _, hNonneg⟩ := h
  exact hNonneg

theorem reserveShare_eq_ok_iff :
    (bond.reserveShare share balance).outcome = .ok moved ↔ Moves share balance moved := by
  unfold reserveShare Moves
  simp only [outcome_bind_eq_ok_iff, outcome_liftM, outcome_violateIf_eq_ok_iff, lt_zero_iff_toRat, not_lt]
  constructor
  · rintro ⟨product, hProduct, _, hSign, hMoved⟩
    cases hMoved
    exact ⟨product, hProduct, rfl, hSign⟩
  · rintro ⟨product, hProduct, rfl, hSign⟩
    exact ⟨product, hProduct, (), hSign, rfl⟩

theorem Pool.reserveDelta_eq_ok_iff (h : Pool bond) :
    (bond.reserveDelta delta balances).outcome = .ok coins ↔
      (0 ≤ delta.toRat ∧ ¬balances.AnyNegative ∧ 0 < bond.supply.amount.toRat) ∧
        ∃ share f, delta.quo bond.supply.amount = .ok share ∧
          (∀ denom ∈ bond.reserves, Moves share (balances.amountOf denom) (f denom)) ∧
          Coins.each bond.reserves h.ascending f = coins := by
  unfold reserveDelta
  simp only [outcome_bind_eq_ok_iff, outcome_liftM, Decimal.ensureNonNegative_eq_ok_iff, refuseIf_eq_ok_iff,
    currentSupply_eq_ok_iff, mapM_outcome_eq_ok_iff, reserveShare_eq_ok_iff, isZero_iff_toRat]
  constructor
  · rintro ⟨_, hDelta, _, hBalances, _, _, _, _, _, ⟨hSupply, rfl⟩, _, hSome, share, hShare, _,
      ⟨f, hMoves, rfl⟩, hCoins⟩
    rw [Coins.ofList_each h.ascending] at hCoins
    exact ⟨⟨hDelta, refuseIf_eq_ok_iff.mp hBalances, lt_of_le_of_ne hSupply (Ne.symm hSome)⟩, share, f, hShare,
      hMoves, Except.ok.inj hCoins⟩
  · rintro ⟨⟨hDelta, hBalances, hSupply⟩, share, f, hShare, hMoves, rfl⟩
    exact ⟨(), hDelta, (), refuseIf_eq_ok_iff.mpr hBalances, (), not_not.mpr h.family, (),
      not_not.mpr h.count, _, ⟨hSupply.le, rfl⟩, (), hSupply.ne', share, hShare, _, ⟨f, hMoves, rfl⟩,
      Coins.ofList_each h.ascending⟩

theorem Pool.reserveDelta_of_pricesToMint (h : Pool bond)
    (hPrices : (bond.pricesToMint amount balances).outcome = .ok coins) :
    (bond.reserveDelta amount balances).outcome = .ok coins := by
  unfold pricesToMint at hPrices
  simp only [outcome_bind_eq_ok_iff, outcome_liftM, h.curve] at hPrices
  obtain ⟨_, _, _, _, _, _, _, ⟨⟩, hPrices⟩ := hPrices
  simp only [outcome_bind_eq_ok_iff, outcome_liftM] at hPrices
  obtain ⟨_, _, hPrices⟩ := hPrices
  exact hPrices

theorem Pool.returnsForBurn_eq_ok_iff (h : Pool bond) :
    (bond.returnsForBurn amount balances).outcome = .ok coins ↔
      amount.toRat ≤ bond.supply.amount.toRat ∧ (bond.reserveDelta amount balances).outcome = .ok coins := by
  unfold returnsForBurn
  simp only [outcome_bind_eq_ok_iff, outcome_liftM, Decimal.ensureNonNegative_eq_ok_iff, refuseIf_eq_ok_iff,
    currentSupply_eq_ok_iff, h.curve, Decimal.lt_iff_toRat_lt, not_lt]
  constructor
  · rintro ⟨_, _, _, _, _, ⟨_, rfl⟩, _, ⟨⟩, _, hEnough, hReturns⟩
    exact ⟨hEnough, hReturns⟩
  · rintro ⟨hEnough, hReturns⟩
    obtain ⟨⟨hAmount, hBalances, hSupply⟩, _⟩ := h.reserveDelta_eq_ok_iff.mp hReturns
    exact ⟨(), hAmount, (), refuseIf_eq_ok_iff.mpr hBalances, _, ⟨hSupply.le, rfl⟩, _, rfl, (), hEnough,
      hReturns⟩

section Share

variable {ratio product paid slack S D b total funded : ℚ}

/-- A price in whole units falls short of the exact share by far less than a unit. -/
theorem share_le_of_product_lt (hBalance : b ≤ 10 ^ 20) (hPaid : paid ≤ 10 ^ 20)
    (hError : |product - ratio * b| ≤ (1 + b + 3 * (ratio * b)) / 10 ^ 28)
    (hProduct : product < paid + 1 / 10 ^ amountPlaces) : ratio * b ≤ paid + 1 / 10 ^ 7 := by
  have hLow := (abs_le.mp hError).1
  unfold amountPlaces at hProduct
  linarith

theorem share_after_le (hS : 0 < S) (hD : 0 ≤ D) (hSlack : 0 ≤ slack) (h : D / S * b ≤ paid + slack) :
    D * (b + paid) ≤ (S + D) * (paid + slack) := by
  rw [div_mul_eq_mul_div, div_le_iff₀ hS] at h
  have hOver : 0 ≤ D * slack := mul_nonneg hD hSlack
  linarith

theorem rounded_share_after_le (hD : 0 ≤ D) (hPos : 0 < S + D) (hNonneg : 0 ≤ paid + slack)
    (hTotal : |total - (S + D)| ≤ (S + D) / 10 ^ 28)
    (hFunded : |funded - (b + paid)| ≤ (b + paid) / 10 ^ 28)
    (h : D * (b + paid) ≤ (S + D) * (paid + slack)) :
    D / total * funded ≤ (paid + slack) * (1 + 3 / 10 ^ 28) := by
  have hTotalLow := (abs_le.mp hTotal).1
  have hFundedHigh := (abs_le.mp hFunded).2
  have hTotalPos : 0 < total := by linarith
  rw [div_mul_eq_mul_div, div_le_iff₀ hTotalPos]
  have hScale : (S + D) * (1 + 1 / 10 ^ 28) ≤ (1 + 3 / 10 ^ 28) * total := by linarith
  calc
    D * funded ≤ D * ((b + paid) * (1 + 1 / 10 ^ 28)) := by
      apply mul_le_mul_of_nonneg_left _ hD
      linarith
    _ = D * (b + paid) * (1 + 1 / 10 ^ 28) := by ring
    _ ≤ (S + D) * (paid + slack) * (1 + 1 / 10 ^ 28) := mul_le_mul_of_nonneg_right h (by norm_num)
    _ = (paid + slack) * ((S + D) * (1 + 1 / 10 ^ 28)) := by ring
    _ ≤ (paid + slack) * ((1 + 3 / 10 ^ 28) * total) := mul_le_mul_of_nonneg_left hScale hNonneg
    _ = (paid + slack) * (1 + 3 / 10 ^ 28) * total := by ring

theorem product_lt_add_one (hFunded : funded ≤ 3 * 10 ^ 20) (hPaid : paid ≤ 10 ^ 20)
    (hShare : ratio * funded ≤ (paid + 1 / 10 ^ 7) * (1 + 3 / 10 ^ 28))
    (hError : |product - ratio * funded| ≤ (1 + funded + 3 * (ratio * funded)) / 10 ^ 28) :
    product < paid + 1 := by
  have hHigh := (abs_le.mp hError).2
  linarith

end Share

theorem Moves.exists_product {ratio : ℚ} (h : Moves share balance moved) (hBalance : 0 ≤ balance.toRat)
    (hRatio : 0 ≤ ratio) (hShare : RoundsSigned ratio share.toRat) :
    ∃ product : Decimal, product.quantize = moved ∧ 0 ≤ product.toRat ∧
      |product.toRat - ratio * balance.toRat| ≤
        (1 + balance.toRat + 3 * (ratio * balance.toRat)) / 10 ^ 28 := by
  obtain ⟨product, hProduct, hMoved, _⟩ := h
  have hRounds := (computes_mul? _ _).rounds (checked_eq_ok_iff.mp hProduct)
  exact ⟨product, hMoved, hRounds.nonneg (mul_nonneg (hShare.nonneg hRatio) hBalance),
    hShare.abs_mul_sub_le hRounds hRatio hBalance⟩

/-- A movement at a share paid for in whole units, and the one that takes it back: what is returned in
whole units is at most what was paid. -/
theorem Moves.truncateUnits_le {supply total back price funded payout : Decimal}
    (hSupply : 0 < supply.toRat) (hDelta : 0 ≤ delta.toRat) (hBalance : 0 ≤ balance.toRat)
    (hTotal : supply.add delta = .ok total) (hFunded : balance.add price.ceilUnits = .ok funded)
    (hShare : delta.quo supply = .ok share) (hPrice : Moves share balance price)
    (hBack : delta.quo total = .ok back) (hPayout : Moves back funded payout)
    (hSmall : balance.toRat ≤ 10 ^ 20) (hPaid : price.ceilUnits.toRat ≤ 10 ^ 20) :
    payout.truncateUnits.toRat ≤ price.ceilUnits.toRat := by
  have hPaidNonneg : 0 ≤ price.ceilUnits.toRat := by
    rw [toRat_ceilUnits]
    exact_mod_cast Int.ceil_nonneg hPrice.nonneg
  have hTotalRounds := (computes_add? _ _).rounds (checked_eq_ok_iff.mp hTotal)
  have hFundedRounds := (computes_add? _ _).rounds (checked_eq_ok_iff.mp hFunded)
  have hTotalLe : supply.toRat ≤ total.toRat :=
    hTotalRounds.le_of_exact supply.exact_toRat (by linarith)
  have hTotalPos : 0 < total.toRat := hSupply.trans_le hTotalLe
  have hFundedNonneg := hFundedRounds.nonneg (add_nonneg hBalance hPaidNonneg)
  have hShareRounds := (computes_div? hSupply.ne').rounds (checked_eq_ok_iff.mp hShare)
  have hBackRounds := (computes_div? hTotalPos.ne').rounds (checked_eq_ok_iff.mp hBack)
  have hTotalError := abs_sub_le_of_add hSupply.le hDelta (checked_eq_ok_iff.mp hTotal)
  have hFundedError := abs_sub_le_of_add hBalance hPaidNonneg (checked_eq_ok_iff.mp hFunded)
  obtain ⟨cost, hCost, hCostNonneg, hCostError⟩ :=
    hPrice.exists_product hBalance (div_nonneg hDelta hSupply.le) hShareRounds
  obtain ⟨gain, hGain, hGainNonneg, hGainError⟩ :=
    hPayout.exists_product hFundedNonneg (div_nonneg hDelta hTotalPos.le) hBackRounds
  -- the price covers its share before the mint, and so it does after
  have hCovered : cost.toRat < price.ceilUnits.toRat + 1 / 10 ^ amountPlaces := by
    have hCeil : price.toRat ≤ price.ceilUnits.toRat := by
      rw [toRat_ceilUnits]
      exact Int.le_ceil _
    rw [← hCost] at hCeil ⊢
    linarith [lt_quantize_add hCostNonneg]
  have hBefore := share_le_of_product_lt hSmall hPaid hCostError hCovered
  have hAfter := rounded_share_after_le hDelta (by linarith) (by linarith) hTotalError
    hFundedError (share_after_le hSupply hDelta (by norm_num) hBefore)
  have hFundedSmall : funded.toRat ≤ 3 * 10 ^ 20 := by
    linarith [(abs_le.mp hFundedError).2]
  have hGainLt := product_lt_add_one hFundedSmall hPaid hAfter hGainError
  -- both are whole, and the payout is less than a unit above
  rw [← hGain, toRat_truncateUnits_of_nonneg (quantize_nonneg hGainNonneg), toRat_ceilUnits]
  rw [toRat_ceilUnits] at hGainLt
  have hWhole : (⌊gain.quantize.toRat⌋ : ℚ) < ⌈price.toRat⌉ + 1 :=
    ((Int.floor_le _).trans (quantize_le hGainNonneg)).trans_lt hGainLt
  exact_mod_cast Int.lt_add_one_iff.mp (by exact_mod_cast hWhole)

end Bond

namespace Ledger

variable {l : Ledger} {policy : Policy} {amount : Decimal} {paid returned : Coins}

/-- Liquidity minted for whole units of every reserve token and burned at once: what is paid, and what is
returned. -/
def addAndRemove (l : Ledger) (amount : Decimal) : Logged (Coins × Coins) := do
  let paid := (← l.bond.pricesToMint amount l.balances).roundUp
  let supply ← l.bond.supply.amount.add amount
  let balances ← l.shifted fun denom old => old.add (paid.amountOf denom)
  let returned := (← (l.withSupply supply).bond.returnsForBurn amount balances).roundDown
  return (paid, returned)

/-- Liquidity that is added and removed again returns at most what it cost. -/
theorem returned_le_paid (hFamily : l.bond.family = .swapper)
    (hValid : (l.bond.validate policy).outcome = .ok ())
    (h : (l.addAndRemove amount).outcome = .ok (paid, returned)) :
    ∀ denom ∈ l.bond.reserves, (l.balances.amountOf denom).toRat ≤ 10 ^ 20 →
      (paid.amountOf denom).toRat ≤ 10 ^ 20 →
      (returned.amountOf denom).toRat ≤ (paid.amountOf denom).toRat := by
  have hPool := Bond.pool_of_validate hFamily hValid
  unfold addAndRemove at h
  simp only [outcome_bind_eq_ok_iff, outcome_liftM, outcome_pure] at h
  obtain ⟨prices, hPrices, supply, hSupply, balances, hBalances, returns, hReturns, hDone⟩ := h
  obtain ⟨rfl, rfl⟩ := Prod.mk.inj (Except.ok.inj hDone)
  have hAfter : Bond.Pool (l.withSupply supply).bond :=
    ⟨hPool.family, hPool.curve, hPool.ascending, hPool.count⟩
  obtain ⟨⟨hAmount, hNonneg, hSupplyPos⟩, share, price, hShare, hPriceMoves, rfl⟩ :=
    hPool.reserveDelta_eq_ok_iff.mp (hPool.reserveDelta_of_pricesToMint hPrices)
  obtain ⟨funded, hFunded, rfl⟩ := (shifted_eq_ok_iff hPool.ascending).mp hBalances
  obtain ⟨_, hReturns⟩ := hAfter.returnsForBurn_eq_ok_iff.mp hReturns
  obtain ⟨_, back, payout, hBack, hPayoutMoves, rfl⟩ := hAfter.reserveDelta_eq_ok_iff.mp hReturns
  intro denom hd hSmall hPaid
  have hFunds := hFunded denom hd
  have hPayout := hPayoutMoves denom hd
  rw [Coins.amountOf_each hPool.ascending hd] at hPayout
  rw [Bond.amountOf_roundUp_each hPool.ascending hd] at hFunds hPaid ⊢
  rw [Bond.amountOf_roundDown_each hAfter.ascending hd]
  exact Bond.Moves.truncateUnits_le hSupplyPos hAmount (Coins.amountOf_nonneg hNonneg denom) hSupply hFunds
    hShare (hPriceMoves denom hd) hBack hPayout hSmall hPaid

/-- A hundred tokens of a pool that holds no whole units. -/
def unevenPool : Ledger := ⟨Bond.pair, ⟨[⟨"aaa", .scaled 5 1⟩, ⟨"bbb", .scaled 100025 2⟩], by decide⟩⟩

/-- Three eighths of the supply are priced at that share of each balance, and burned for three elevenths. -/
theorem returned_le_paid_unevenPool :
    (unevenPool.bond.validate .strict).outcome = .ok () ∧
    ∃ paid returned, (unevenPool.addAndRemove (.scaled 375 1)).outcome = .ok (paid, returned) ∧
      (paid.amountOf "bbb").toRat = 376 ∧ (returned.amountOf "bbb").toRat = 375 ∧
      ∀ denom ∈ unevenPool.bond.reserves, (returned.amountOf denom).toRat ≤ (paid.amountOf denom).toRat := by
  have hValid : (unevenPool.bond.validate .strict).outcome = .ok () := by decide +kernel
  have hRun : (unevenPool.addAndRemove (.scaled 375 1)).outcome =
      .ok (⟨[⟨"aaa", .units 1⟩, ⟨"bbb", .units 376⟩], by decide⟩,
        ⟨[⟨"aaa", .units 0⟩, ⟨"bbb", .units 375⟩], by decide⟩) := by
    decide +kernel
  refine ⟨hValid, _, _, hRun, by decide +kernel, by decide +kernel, ?_⟩
  intro denom hd
  apply returned_le_paid rfl hValid hRun denom hd
  · revert denom
    decide +kernel
  · revert denom
    decide +kernel

end Ledger

end BondingCurve
