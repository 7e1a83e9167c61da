import BondingCurve.Bond.Fees
import BondingCurve.Proofs.Decimal.Error
import BondingCurve.Proofs.Settlement
import BondingCurve.Proofs.Swap

/-!
# How a fee compares to the exact percentage

A fee is the least amount that covers a product. The product is rounded to nearest, and so is the rate it is
taken with, before anything is rounded up: a product that lost its last digits to the rounding is covered by
an amount that does not cover the exact value. Nothing is lost where both are decimals, and what is lost
otherwise is below one part in `10 ^ 28` of the quantities involved.
-/

namespace BondingCurve

open Logged Decimal

theorem percentageFee_eq_ok_iff {percentage amount fee : Decimal} :
    percentageFee percentage amount = .ok fee ↔
      ∃ rate product, percentage.quo .hundred = .ok rate ∧ rate.mul amount = .ok product ∧
        product.quantizeUp = fee := by
  unfold percentageFee
  simp only [bind_eq_ok_iff]
  constructor
  · rintro ⟨rate, hRate, product, hProduct, hFee⟩
    exact ⟨rate, product, hRate, hProduct, Except.ok.inj hFee⟩
  · rintro ⟨rate, product, hRate, hProduct, rfl⟩
    exact ⟨rate, hRate, product, hProduct, rfl⟩

theorem Coin.fee_eq_ok_iff {percentage : Decimal} {coin charged : Coin} :
    coin.fee percentage = .ok charged ↔
      charged.denom = coin.denom ∧ percentageFee percentage coin.amount = .ok charged.amount := by
  unfold Coin.fee
  rw [bind_eq_ok_iff]
  constructor
  · rintro ⟨amount, hAmount, hCharged⟩
    cases hCharged
    exact ⟨rfl, hAmount⟩
  · rintro ⟨hDenom, hAmount⟩
    refine ⟨charged.amount, hAmount, ?_⟩
    rw [← hDenom]
    rfl

section Covers

variable {v fee : ℚ} {product : Decimal}

/-- The least amount that is not below a value. -/
def LeastCover (v fee : ℚ) : Prop := IsLeast {u | IsAmount u ∧ v ≤ u} fee

theorem leastCover_quantizeUp (x : Decimal) : LeastCover x.toRat x.quantizeUp.toRat := by
  constructor
  · exact ⟨isAmount_quantizeUp x, le_quantizeUp x⟩
  · rintro u ⟨hu, hCovers⟩
    exact quantizeUp_le hu hCovers

theorem leastCover_iff (hFee : IsAmount fee) :
    LeastCover v fee ↔ v ≤ fee ∧ fee < v + 1 / 10 ^ amountPlaces := by
  constructor
  · rintro ⟨⟨_, hCovers⟩, hLeast⟩
    refine ⟨hCovers, ?_⟩
    by_contra hOver
    -- a unit less would cover the value as well
    have hLess := hLeast ⟨hFee.sub (onGrid_unit amountPlaces), le_sub_right_of_add_le (not_lt.mp hOver)⟩
    have hPos : (0 : ℚ) < 1 / 10 ^ amountPlaces := by positivity
    linarith
  · rintro ⟨hCovers, hWithin⟩
    refine ⟨⟨hFee, hCovers⟩, ?_⟩
    rintro u ⟨hu, hAbove⟩
    by_contra hLess
    have hStep := hu.add_unit_le hFee (not_le.mp hLess)
    linarith

/-- A product is covered by less than the value exactly when an amount covers it that does not cover the
value. -/
theorem LeastCover.le_iff {w : ℚ} (h : LeastCover w fee) : v ≤ fee ↔ ¬∃ u, IsAmount u ∧ w ≤ u ∧ u < v := by
  constructor
  · rintro hCovers ⟨u, hu, hAbove, hShort⟩
    exact absurd (h.2 ⟨hu, hAbove⟩) (not_le.mpr (hShort.trans_le hCovers))
  · intro hNone
    by_contra hShort
    exact hNone ⟨fee, h.1.1, h.1.2, not_le.mp hShort⟩

theorem LeastCover.lt_add_iff {w : ℚ} (h : LeastCover w fee) :
    fee < v + 1 / 10 ^ amountPlaces ↔ ¬∃ u, IsAmount u ∧ v ≤ u ∧ u < w := by
  have hUnit := (leastCover_iff h.1.1).mp h
  constructor
  · rintro hWithin ⟨u, hu, hAbove, hShort⟩
    have hStep := hu.add_unit_le h.1.1 (hShort.trans_le h.1.2)
    linarith
  · intro hNone
    by_contra hOver
    apply hNone
    exact ⟨fee - 1 / 10 ^ amountPlaces, h.1.1.sub (onGrid_unit amountPlaces), by linarith, by linarith⟩

theorem le_quantizeUp_iff (h : RoundsSigned v product.toRat) :
    v ≤ product.quantizeUp.toRat ↔ ¬(IsAmount product.toRat ∧ product.toRat < v) := by
  have hCover := leastCover_quantizeUp product
  constructor
  · rintro hCovers ⟨hWhole, hShort⟩
    exact absurd (hCover.2 ⟨hWhole, le_rfl⟩) (not_le.mpr (hShort.trans_le hCovers))
  · intro hGood
    by_contra hShort
    have hExact : Exact product.quantizeUp.toRat := exact_toRat _
    have hSame := le_antisymm (h.le_of_exact hExact (not_le.mp hShort).le) hCover.1.2
    exact hGood ⟨hSame ▸ hCover.1.1, hSame ▸ not_le.mp hShort⟩

/-- It is not covered by a unit too much where every amount up to there is a decimal, since rounding passes
none. -/
theorem quantizeUp_lt_add_of_lt (h : RoundsSigned v product.toRat) (hv : 0 ≤ v)
    (hSmall : product.quantizeUp.toRat < exactBound) :
    product.quantizeUp.toRat < v + 1 / 10 ^ amountPlaces := by
  have hCover := leastCover_quantizeUp product
  rw [hCover.lt_add_iff]
  rintro ⟨u, hu, hAbove, hShort⟩
  have hExact : Exact u := by
    apply exact_of_isAmount hu
    rw [abs_of_nonneg (hv.trans hAbove)]
    exact (hShort.trans_le hCover.1.2).trans hSmall
  exact absurd (h.ge_of_exact hExact hAbove) (not_le.mpr hShort)

end Covers

section Exact

variable {percentage amount rate product : Decimal}

def exactFee (percentage amount : Decimal) : ℚ := percentage.toRat / 100 * amount.toRat

theorem exactFee_nonneg (hNonneg : 0 ≤ percentage.toRat) (hAmount : 0 ≤ amount.toRat) :
    0 ≤ exactFee percentage amount :=
  mul_nonneg (div_nonneg hNonneg (by norm_num)) hAmount

theorem roundsSigned_rate (h : percentage.quo .hundred = .ok rate) :
    RoundsSigned (percentage.toRat / 100) rate.toRat :=
  (computes_div?_hundred percentage).rounds (checked_eq_ok_iff.mp h)

theorem rate_eq_of_onGrid {places : Nat} (hPlaces : places ≤ 26) (hGrid : OnGrid places percentage.toRat)
    (hNonneg : 0 ≤ percentage.toRat) (hLess : percentage.toRat < 100)
    (h : percentage.quo .hundred = .ok rate) : rate.toRat = percentage.toRat / 100 := by
  have hRate : OnGrid (places + 2) (percentage.toRat / 100) := by
    obtain ⟨k, hk⟩ := hGrid
    exact ⟨k, by rw [← hk, pow_add]; ring⟩
  apply (roundsSigned_rate h).eq_of_exact
  apply exact_of_onGrid (by omega) hRate
  rw [abs_of_nonneg (by positivity)]
  have hPow : (10 : ℚ) ^ places ≤ 10 ^ 26 := pow_le_pow_right₀ (by norm_num) hPlaces
  calc
    percentage.toRat / 100 * 10 ^ (places + 2) = percentage.toRat * 10 ^ places := by
      rw [pow_add]
      ring
    _ ≤ 100 * 10 ^ 26 := mul_le_mul hLess.le hPow (by positivity) (by norm_num)
    _ < 2 ^ 96 := by norm_num

theorem product_eq_of_onGrid {places more : Nat} (hPlaces : places + more ≤ 26)
    (hGrid : OnGrid places percentage.toRat) (hAmountGrid : OnGrid more amount.toRat)
    (hNonneg : 0 ≤ percentage.toRat) (hLess : percentage.toRat < 100) (hAmount : 0 ≤ amount.toRat)
    (hShort : exactFee percentage amount * 10 ^ (places + more + 2) < 2 ^ 96)
    (hRate : percentage.quo .hundred = .ok rate) (hProduct : rate.mul amount = .ok product) :
    product.toRat = exactFee percentage amount := by
  have hRounds := (computes_mul? _ _).rounds (checked_eq_ok_iff.mp hProduct)
  rw [rate_eq_of_onGrid (by omega) hGrid hNonneg hLess hRate] at hRounds
  have hExactGrid : OnGrid (places + more + 2) (exactFee percentage amount) := by
    obtain ⟨k, hk⟩ := hGrid.mul hAmountGrid
    exact ⟨k, by rw [← hk, exactFee, pow_add]; ring⟩
  apply hRounds.eq_of_exact
  apply exact_of_onGrid (by omega) hExactGrid
  rwa [abs_of_nonneg (exactFee_nonneg hNonneg hAmount)]

end Exact

namespace Bond

variable {bond : Bond} {policy : Policy} {percentage : Decimal} {coin fee : Coin}

/-- A fee that a bond takes of a coin, on a trade or on an exit, with its percentage. -/
def Charges (bond : Bond) (percentage : Decimal) (coin fee : Coin) : Prop :=
  percentage = bond.txFee ∧ bond.feeOnTrade coin = .ok fee ∨
    percentage = bond.exitFee ∧ bond.feeOnExit coin = .ok fee

theorem Charges.eq_ok (h : bond.Charges percentage coin fee) : coin.fee percentage = .ok fee := by
  rcases h with ⟨rfl, hFee⟩ | ⟨rfl, hFee⟩
  · exact hFee
  · exact hFee

theorem Accepted.percent_bounds (hAccepted : bond.Accepted)
    (h : percentage = bond.txFee ∨ percentage = bond.exitFee) :
    0 ≤ percentage.toRat ∧ percentage.toRat < 100 := by
  obtain ⟨total, hTotal, hLess⟩ := hAccepted.fees
  have hTx := hAccepted.txFee
  have hExit := hAccepted.exitFee
  have hRounds := (computes_add? _ _).rounds hTotal
  rw [toRat_hundred] at hLess
  rcases h with rfl | rfl
  · exact ⟨hTx, (hRounds.le_of_exact bond.txFee.exact_toRat (by linarith)).trans_lt hLess⟩
  · exact ⟨hExit, (hRounds.le_of_exact bond.exitFee.exact_toRat (by linarith)).trans_lt hLess⟩

theorem Accepted.percentage_bounds (hAccepted : bond.Accepted) (h : bond.Charges percentage coin fee) :
    0 ≤ percentage.toRat ∧ percentage.toRat < 100 :=
  hAccepted.percent_bounds (h.imp And.left And.left)

/-- A fee is the least amount that covers the exact percentage exactly when no amount lies between the exact
value and the product that is rounded up: one below the exact value is under-collection, one below the
product a unit too much. With at most 26 places of the percentage a fee is too little only where the product
was rounded down to an amount, and a fee of ordinary size is never a unit too much. It is the least amount
that covers the exact percentage where all digits of the product fit, and close to it always. -/
theorem leastCover_fee_iff (hValid : (bond.validate policy).outcome = .ok ())
    (hAmount : 0 ≤ coin.amount.toRat) (h : bond.Charges percentage coin fee) :
    fee.denom = coin.denom ∧
    ∃ rate product, percentage.quo .hundred = .ok rate ∧ rate.mul coin.amount = .ok product ∧
      (LeastCover (exactFee percentage coin.amount) fee.amount.toRat ↔
        exactFee percentage coin.amount ≤ fee.amount.toRat ∧
          fee.amount.toRat < exactFee percentage coin.amount + 1 / 10 ^ amountPlaces) ∧
      (exactFee percentage coin.amount ≤ fee.amount.toRat ↔
        ¬∃ u, IsAmount u ∧ product.toRat ≤ u ∧ u < exactFee percentage coin.amount) ∧
      (fee.amount.toRat < exactFee percentage coin.amount + 1 / 10 ^ amountPlaces ↔
        ¬∃ u, IsAmount u ∧ exactFee percentage coin.amount ≤ u ∧ u < product.toRat) ∧
      (OnGrid 26 percentage.toRat →
        (exactFee percentage coin.amount ≤ fee.amount.toRat ↔
          ¬(IsAmount product.toRat ∧ product.toRat < exactFee percentage coin.amount)) ∧
        (fee.amount.toRat < exactBound →
          fee.amount.toRat < exactFee percentage coin.amount + 1 / 10 ^ amountPlaces)) ∧
      (∀ places more, places + more ≤ 26 → OnGrid places percentage.toRat → OnGrid more coin.amount.toRat →
        exactFee percentage coin.amount * 10 ^ (places + more + 2) < 2 ^ 96 →
        LeastCover (exactFee percentage coin.amount) fee.amount.toRat) ∧
      exactFee percentage coin.amount -
          (1 + coin.amount.toRat + 3 * exactFee percentage coin.amount) / 10 ^ 28 ≤ fee.amount.toRat ∧
      fee.amount.toRat < exactFee percentage coin.amount + 1 / 10 ^ amountPlaces +
        (1 + coin.amount.toRat + 3 * exactFee percentage coin.amount) / 10 ^ 28 := by
  obtain ⟨hNonneg, hLess⟩ := (validate_eq_ok_iff.mp hValid).percentage_bounds h
  obtain ⟨hDenom, hFee⟩ := Coin.fee_eq_ok_iff.mp h.eq_ok
  obtain ⟨rate, product, hRate, hProduct, hFee⟩ := percentageFee_eq_ok_iff.mp hFee
  have hCover := leastCover_quantizeUp product
  have hRounds := (computes_mul? _ _).rounds (checked_eq_ok_iff.mp hProduct)
  have hError := (roundsSigned_rate hRate).abs_mul_sub_le hRounds (div_nonneg hNonneg (by norm_num)) hAmount
  rw [← exactFee] at hError
  obtain ⟨hLow, hHigh⟩ := abs_le.mp hError
  rw [← hFee]
  refine ⟨hDenom, rate, product, hRate, hProduct, leastCover_iff hCover.1.1, hCover.le_iff, hCover.lt_add_iff,
    ?_, ?_, ?_, ?_⟩
  · intro hGrid
    rw [rate_eq_of_onGrid le_rfl hGrid hNonneg hLess hRate, ← exactFee] at hRounds
    exact ⟨le_quantizeUp_iff hRounds, quantizeUp_lt_add_of_lt hRounds (exactFee_nonneg hNonneg hAmount)⟩
  · intro places more hPlaces hGrid hAmountGrid hShort
    rw [← product_eq_of_onGrid hPlaces hGrid hAmountGrid hNonneg hLess hAmount hShort hRate hProduct]
    exact hCover
  · linarith [le_quantizeUp product]
  · linarith [quantizeUp_lt_add product]

def threeTenths : Bond := { pair with txFee := .scaled 3 1 }

def largeCoin : Coin := ⟨"aaa", .scaled 30000000000000000000000000001 amountPlaces⟩

/-- The product has room for twenty places, and the exact percentage ends in the twenty-first. -/
theorem leastCover_fee_iff_largeCoin :
    (threeTenths.validate .strict).outcome = .ok () ∧ IsAmount largeCoin.amount.toRat ∧
    threeTenths.feeOnTrade largeCoin = .ok ⟨"aaa", .units 90000000⟩ ∧
    exactFee threeTenths.txFee largeCoin.amount = 90000000 + 3 / 10 ^ 21 ∧
    ¬LeastCover (exactFee threeTenths.txFee largeCoin.amount) (units 90000000).toRat ∧
    ∃ product : Decimal, IsAmount product.toRat ∧
      product.toRat < exactFee threeTenths.txFee largeCoin.amount := by
  have hValid : (threeTenths.validate .strict).outcome = .ok () := by decide +kernel
  have hFee : threeTenths.feeOnTrade largeCoin = .ok ⟨"aaa", .units 90000000⟩ := by decide +kernel
  have hShort : ¬exactFee threeTenths.txFee largeCoin.amount ≤ (units 90000000).toRat := by decide +kernel
  obtain ⟨_, rate, product, _, _, hLeast, _, _, hGrid, _⟩ :=
    leastCover_fee_iff hValid (by decide +kernel) (.inl ⟨rfl, hFee⟩)
  refine ⟨hValid, ⟨30000000000000000000000000001, by decide +kernel⟩, hFee, by decide +kernel, ?_, product, ?_⟩
  · intro hCover
    exact hShort (hLeast.mp hCover).1
  · exact not_not.mp (mt (hGrid ⟨3 * 10 ^ 25, by decide +kernel⟩).1.mpr hShort)

/-- With more places of the percentage the rate is rounded too, here up to nearly twice its value. -/
example : (Coin.mk "aaa" (.units (10 ^ 20))).fee (.scaled 51 28) = .ok ⟨"aaa", .scaled 1 8⟩ ∧
    exactFee (.scaled 51 28) (.units (10 ^ 20)) = 51 / 10 ^ 10 := by
  decide +kernel

end Bond

end BondingCurve
