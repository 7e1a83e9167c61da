import BondingCurve.Proofs.Liquidity

/-!
# Does a settlement of liquidity favour the pool?

The share of a reserve that comes with a change of the supply is a product, rounded, of a balance with a
rounded quotient, cut to an amount and only then brought to whole units. Against the exact share the whole
units err in the wrong direction exactly where a whole number lies between the exact share and the product,
and then by less than the cut and the roundings have moved it. Nothing is lost where quotient and share are
decimals that need no rounding.
-/

namespace BondingCurve

open Logged Decimal

section WholeUnits

variable {v : ℚ} {product : Decimal}

theorem ceilUnits_quantize_le_iff (h : 0 ≤ product.toRat) (n : ℤ) :
    product.quantize.ceilUnits.toRat ≤ n ↔ product.toRat < n + 1 / 10 ^ amountPlaces := by
  rw [toRat_ceilUnits, Int.cast_le, Int.ceil_le]
  constructor
  · intro hLe
    linarith [lt_quantize_add h]
  · intro hLess
    by_contra hAbove
    have hStep := (OnGrid.intCast amountPlaces n).add_unit_le (isAmount_quantize product) (not_le.mp hAbove)
    linarith [quantize_le h]

theorem le_truncateUnits_quantize_iff (h : 0 ≤ product.toRat) (n : ℤ) :
    n ≤ product.quantize.truncateUnits.toRat ↔ n ≤ product.toRat := by
  rw [toRat_truncateUnits_of_nonneg (quantize_nonneg h), Int.cast_le, Int.le_floor]
  constructor
  · intro hLe
    exact hLe.trans (quantize_le h)
  · intro hLe
    by_contra hAbove
    have hStep := (isAmount_quantize product).add_unit_le (OnGrid.intCast amountPlaces n) (not_le.mp hAbove)
    linarith [lt_quantize_add h]

/-- A charge falls short exactly where a whole number below the value is within the cut of the product. -/
theorem le_ceilUnits_quantize_iff (h : 0 ≤ product.toRat) :
    v ≤ product.quantize.ceilUnits.toRat ↔
      ¬∃ n : ℤ, (n : ℚ) < v ∧ product.toRat < n + 1 / 10 ^ amountPlaces := by
  simp only [← ceilUnits_quantize_le_iff h]
  constructor
  · rintro hCovers ⟨n, hShort, hWithin⟩
    exact absurd (hCovers.trans hWithin) (not_le.mpr hShort)
  · intro hNone
    by_contra hShort
    rw [toRat_ceilUnits] at hShort hNone
    exact hNone ⟨_, not_le.mp hShort, le_rfl⟩

/-- A payout exceeds the value exactly where the product has reached a whole number above the value. -/
theorem truncateUnits_quantize_le_iff (h : 0 ≤ product.toRat) :
    product.quantize.truncateUnits.toRat ≤ v ↔ ¬∃ n : ℤ, v < n ∧ (n : ℚ) ≤ product.toRat := by
  simp only [← le_truncateUnits_quantize_iff h]
  constructor
  · rintro hWithin ⟨n, hOver, hReached⟩
    exact absurd (hReached.trans hWithin) (not_le.mpr hOver)
  · intro hNone
    by_contra hOver
    rw [toRat_truncateUnits_of_nonneg (quantize_nonneg h)] at hOver hNone
    exact hNone ⟨_, not_le.mp hOver, le_rfl⟩

end WholeUnits

namespace Bond

variable {bond : Bond} {policy : Policy} {amount share balance moved : Decimal} {balances : Coins}

/-- The part of a balance that goes with an amount of the supply. -/
def exactShare (bond : Bond) (amount balance : Decimal) : ℚ :=
  amount.toRat / bond.supply.amount.toRat * balance.toRat

/-- How far rounding the quotient and the product can move a share. -/
def shareError (bond : Bond) (amount balance : Decimal) : ℚ :=
  (1 + balance.toRat + 3 * bond.exactShare amount balance) / 10 ^ 28

structure ShareFits (bond : Bond) (amount balance : Decimal) : Prop where
  quotient : Exact (amount.toRat / bond.supply.amount.toRat)
  share : Exact (bond.exactShare amount balance)

structure SharesOut (bond : Bond) (amount balance moved product : Decimal) : Prop where
  nonneg : 0 ≤ product.toRat
  cut : product.quantize = moved
  near : |product.toRat - bond.exactShare amount balance| ≤ bond.shareError amount balance
  eq_of_fits : bond.ShareFits amount balance → product.toRat = bond.exactShare amount balance

theorem Moves.exists_sharesOut (h : Moves share balance moved) (hAmount : 0 ≤ amount.toRat)
    (hSupply : 0 < bond.supply.amount.toRat) (hBalance : 0 ≤ balance.toRat)
    (hShare : amount.quo bond.supply.amount = .ok share) :
    ∃ product, share.mul balance = .ok product ∧ bond.SharesOut amount balance moved product := by
  obtain ⟨product, hProduct, hCut, _⟩ := h
  have hRatio : 0 ≤ amount.toRat / bond.supply.amount.toRat := div_nonneg hAmount hSupply.le
  have hShareRounds := (computes_div? hSupply.ne').rounds (checked_eq_ok_iff.mp hShare)
  have hRounds := (computes_mul? _ _).rounds (checked_eq_ok_iff.mp hProduct)
  refine ⟨product, hProduct, hRounds.nonneg (mul_nonneg (hShareRounds.nonneg hRatio) hBalance), hCut,
    hShareRounds.abs_mul_sub_le hRounds hRatio hBalance, ?_⟩
  rintro ⟨hQuotient, hFits⟩
  rw [hShareRounds.eq_of_exact hQuotient] at hRounds
  exact hRounds.eq_of_exact hFits

namespace SharesOut

variable {product : Decimal}

theorem le_charge_iff (h : bond.SharesOut amount balance moved product) :
    bond.exactShare amount balance ≤ moved.ceilUnits.toRat ↔
      ¬∃ n : ℤ, (n : ℚ) < bond.exactShare amount balance ∧ product.toRat < n + 1 / 10 ^ amountPlaces := by
  rw [← h.cut]
  exact le_ceilUnits_quantize_iff h.nonneg

theorem lt_charge_add (h : bond.SharesOut amount balance moved product) :
    bond.exactShare amount balance <
      moved.ceilUnits.toRat + 1 / 10 ^ amountPlaces + bond.shareError amount balance := by
  have hLow := (abs_le.mp h.near).1
  have hCeil : moved.toRat ≤ moved.ceilUnits.toRat := by
    rw [toRat_ceilUnits]
    exact Int.le_ceil _
  rw [← h.cut] at hCeil ⊢
  linarith [lt_quantize_add h.nonneg]

theorem le_charge_of_fits (h : bond.SharesOut amount balance moved product)
    (hFits : bond.ShareFits amount balance) (hAmount : IsAmount (bond.exactShare amount balance)) :
    bond.exactShare amount balance ≤ moved.ceilUnits.toRat := by
  rw [h.le_charge_iff, h.eq_of_fits hFits]
  rintro ⟨n, hShort, hWithin⟩
  linarith [(OnGrid.intCast amountPlaces n).add_unit_le hAmount hShort]

theorem payout_le_iff (h : bond.SharesOut amount balance moved product) :
    moved.truncateUnits.toRat ≤ bond.exactShare amount balance ↔
      ¬∃ n : ℤ, bond.exactShare amount balance < n ∧ (n : ℚ) ≤ product.toRat := by
  rw [← h.cut]
  exact truncateUnits_quantize_le_iff h.nonneg

theorem payout_le_add (h : bond.SharesOut amount balance moved product) :
    moved.truncateUnits.toRat ≤ bond.exactShare amount balance + bond.shareError amount balance := by
  have hHigh := (abs_le.mp h.near).2
  have hFloor : moved.truncateUnits.toRat ≤ product.toRat := by
    rw [← h.cut, toRat_truncateUnits_of_nonneg (quantize_nonneg h.nonneg)]
    exact (Int.floor_le _).trans (quantize_le h.nonneg)
  linarith

theorem payout_le_of_fits (h : bond.SharesOut amount balance moved product)
    (hFits : bond.ShareFits amount balance) :
    moved.truncateUnits.toRat ≤ bond.exactShare amount balance := by
  rw [h.payout_le_iff, h.eq_of_fits hFits]
  rintro ⟨n, hOver, hReached⟩
  linarith

end SharesOut

/-- In whole units a swapper charges less than the exact share of a reserve exactly where a whole number below the
share is within a unit of an amount of the product, and pays more exactly where the product has reached a whole
number above the share. Neither happens where quotient and share are decimals, the share to be charged an amount. -/
theorem pool_favoured_iff (hFamily : bond.family = .swapper) (hValid : (bond.validate policy).outcome = .ok ()) :
    (∀ prices, (bond.pricesToMint amount balances).outcome = .ok prices →
      ∃ share, amount.quo bond.supply.amount = .ok share ∧ ∀ denom ∈ bond.reserves,
        ∃ product, share.mul (balances.amountOf denom) = .ok product ∧
          (bond.exactShare amount (balances.amountOf denom) ≤ (prices.roundUp.amountOf denom).toRat ↔
            ¬∃ n : ℤ, (n : ℚ) < bond.exactShare amount (balances.amountOf denom) ∧
              product.toRat < n + 1 / 10 ^ amountPlaces) ∧
          (bond.ShareFits amount (balances.amountOf denom) →
            IsAmount (bond.exactShare amount (balances.amountOf denom)) →
            bond.exactShare amount (balances.amountOf denom) ≤ (prices.roundUp.amountOf denom).toRat) ∧
          bond.exactShare amount (balances.amountOf denom) < (prices.roundUp.amountOf denom).toRat +
            1 / 10 ^ amountPlaces + bond.shareError amount (balances.amountOf denom)) ∧
    ∀ returns, (bond.returnsForBurn amount balances).outcome = .ok returns →
      ∃ share, amount.quo bond.supply.amount = .ok share ∧ ∀ denom ∈ bond.reserves,
        ∃ product, share.mul (balances.amountOf denom) = .ok product ∧
          ((returns.roundDown.amountOf denom).toRat ≤ bond.exactShare amount (balances.amountOf denom) ↔
            ¬∃ n : ℤ, bond.exactShare amount (balances.amountOf denom) < n ∧ (n : ℚ) ≤ product.toRat) ∧
          (bond.ShareFits amount (balances.amountOf denom) →
            (returns.roundDown.amountOf denom).toRat ≤ bond.exactShare amount (balances.amountOf denom)) ∧
          (returns.roundDown.amountOf denom).toRat ≤
            bond.exactShare amount (balances.amountOf denom) + bond.shareError amount (balances.amountOf denom) := by
  have hPool := pool_of_validate hFamily hValid
  constructor
  · intro prices hPrices
    obtain ⟨⟨hAmount, hBalances, hSupply⟩, share, price, hShare, hMoves, rfl⟩ :=
      hPool.reserveDelta_eq_ok_iff.mp (hPool.reserveDelta_of_pricesToMint hPrices)
    refine ⟨share, hShare, fun denom hd => ?_⟩
    obtain ⟨product, hProduct, hOut⟩ := (hMoves denom hd).exists_sharesOut hAmount hSupply
      (Coins.amountOf_nonneg hBalances denom) hShare
    rw [amountOf_roundUp_each hPool.ascending hd]
    exact ⟨product, hProduct, hOut.le_charge_iff, hOut.le_charge_of_fits, hOut.lt_charge_add⟩
  · intro returns hReturns
    obtain ⟨⟨hAmount, hBalances, hSupply⟩, share, payout, hShare, hMoves, rfl⟩ :=
      hPool.reserveDelta_eq_ok_iff.mp (hPool.returnsForBurn_eq_ok_iff.mp hReturns).2
    refine ⟨share, hShare, fun denom hd => ?_⟩
    obtain ⟨product, hProduct, hOut⟩ := (hMoves denom hd).exists_sharesOut hAmount hSupply
      (Coins.amountOf_nonneg hBalances denom) hShare
    rw [amountOf_roundDown_each hPool.ascending hd]
    exact ⟨product, hProduct, hOut.payout_le_iff, hOut.payout_le_of_fits, hOut.payout_le_add⟩

def tenTokens : Bond := { pair with supply := ⟨"pair", .units 10⟩ }

def threeTokens : Bond := { pair with supply := ⟨"pair", .units 3⟩ }

def unitAbove : Coins := ⟨[⟨"aaa", .scaled 10000000000000000001 amountPlaces⟩, ⟨"bbb", .units 10⟩], by decide⟩

def unitBelow : Coins :=
  ⟨[⟨"aaa", .scaled 59999999999999999999999999999 amountPlaces⟩, ⟨"bbb", .units 10⟩], by decide⟩

/-- A tenth of the pool is charged a whole unit that does not cover it; two thirds are paid out of a quotient that
was rounded up. -/
theorem pool_favoured_iff_unitAbove :
    (tenTokens.validate .strict).outcome = .ok () ∧ (threeTokens.validate .strict).outcome = .ok () ∧
    (∃ prices, (tenTokens.pricesToMint 1 unitAbove).outcome = .ok prices ∧
      (prices.roundUp.amountOf "aaa").toRat = 1 ∧
      tenTokens.exactShare 1 (unitAbove.amountOf "aaa") = 1 + 1 / 10 ^ 19 ∧
      ∃ share product : Decimal, share.mul (unitAbove.amountOf "aaa") = .ok product ∧
        ∃ n : ℤ, (n : ℚ) < 1 + 1 / 10 ^ 19 ∧ product.toRat < n + 1 / 10 ^ amountPlaces) ∧
    ∃ returns, (threeTokens.returnsForBurn (.units 2) unitBelow).outcome = .ok returns ∧
      (returns.roundDown.amountOf "aaa").toRat = 40000000000 ∧
      threeTokens.exactShare (.units 2) (unitBelow.amountOf "aaa") = 40000000000 - 2 / 3 / 10 ^ 18 ∧
      ∃ share product : Decimal, share.mul (unitBelow.amountOf "aaa") = .ok product ∧
        ∃ n : ℤ, 40000000000 - 2 / 3 / 10 ^ 18 < (n : ℚ) ∧ (n : ℚ) ≤ product.toRat := by
  have hTen : (tenTokens.validate .strict).outcome = .ok () := by decide +kernel
  have hThree : (threeTokens.validate .strict).outcome = .ok () := by decide +kernel
  have hPrices : (tenTokens.pricesToMint 1 unitAbove).outcome =
      .ok ⟨[⟨"aaa", 1⟩, ⟨"bbb", 1⟩], by decide⟩ := by
    decide +kernel
  have hReturns : (threeTokens.returnsForBurn (.units 2) unitBelow).outcome =
      .ok ⟨[⟨"aaa", .scaled 40000000000000000000000000001 amountPlaces⟩,
        ⟨"bbb", .scaled 6666666666666666666 amountPlaces⟩], by decide⟩ := by
    decide +kernel
  have hShare : tenTokens.exactShare 1 (unitAbove.amountOf "aaa") = 1 + 1 / 10 ^ 19 := by decide +kernel
  have hShare' : threeTokens.exactShare (.units 2) (unitBelow.amountOf "aaa") =
      40000000000 - 2 / 3 / 10 ^ 18 := by
    decide +kernel
  refine ⟨hTen, hThree, ⟨_, hPrices, by decide +kernel, hShare, ?_⟩, _, hReturns, by decide +kernel, hShare', ?_⟩
  · obtain ⟨share, _, hCharges⟩ := (pool_favoured_iff rfl hTen).1 _ hPrices
    obtain ⟨product, hProduct, hCovers, _⟩ := hCharges "aaa" (by decide +kernel)
    rw [hShare] at hCovers
    exact ⟨share, product, hProduct, not_not.mp (mt hCovers.mpr (by decide +kernel))⟩
  · obtain ⟨share, _, hPays⟩ := (pool_favoured_iff rfl hThree).2 _ hReturns
    obtain ⟨product, hProduct, hWithin, _⟩ := hPays "aaa" (by decide +kernel)
    rw [hShare'] at hWithin
    exact ⟨share, product, hProduct, not_not.mp (mt hWithin.mpr (by decide +kernel))⟩

end Bond

end BondingCurve
