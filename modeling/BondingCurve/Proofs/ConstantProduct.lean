import BondingCurve.Proofs.Fees

/-!
# What a swap makes of the product of the reserves

The product of the reserves is kept exactly when the output is at most the exact one. The output is
cut down from a quotient that four roundings lead to, each to nearest, so it can lie above the exact
one by a unit of the eighteenth place; it does only where one of the four favours the trader. What the
product then loses is below one part in `10 ^ 27` of the quantities involved.
-/

namespace BondingCurve

open Logged Decimal

namespace Bond

variable {bond : Bond} {sold : Coin} {wanted : String} {balances : Coins} {trade : SwapReturn}

def givenBy (sold : Coin) (trade : SwapReturn) : ℚ := sold.amount.toRat - trade.fee.amount.toRat

def reserveProduct (balances : Coins) (first second : String) : ℚ :=
  (balances.amountOf first).toRat * (balances.amountOf second).toRat

def productAfter (balances : Coins) (sold : Coin) (wanted : String) (trade : SwapReturn) : ℚ :=
  ((balances.amountOf sold.denom).toRat + givenBy sold trade) *
    ((balances.amountOf wanted).toRat - trade.returns.amount.toRat)

/-- The output that would leave the product as it is. -/
def exactOutput (balances : Coins) (sold : Coin) (wanted : String) (trade : SwapReturn) : ℚ :=
  givenBy sold trade * (balances.amountOf wanted).toRat /
    ((balances.amountOf sold.denom).toRat + givenBy sold trade)

theorem isAmount_fee (h : (bond.returnsForSwap sold wanted balances).outcome = .ok trade) :
    IsAmount trade.fee.amount.toRat := by
  unfold returnsForSwap at h
  simp only [outcome_bind_eq_ok_iff, outcome_liftM, outcome_pure] at h
  obtain ⟨_, _, _, _, _, _, _, _, _, _, fee, hFee, _, _, _, _, _, _, _, _, _, _, _, _, _, _, hDone⟩ := h
  cases hDone
  obtain ⟨_, hAmount⟩ := Coin.fee_eq_ok_iff.mp hFee
  obtain ⟨_, product, _, _, hAmount⟩ := percentageFee_eq_ok_iff.mp hAmount
  rw [← hAmount]
  exact isAmount_quantizeUp product

section Product

variable {reserve given out returned input product pool quotient : ℚ}

theorem product_kept_iff (hPos : 0 < reserve + given) :
    reserve * out ≤ (reserve + given) * (out - returned) ↔
      returned ≤ given * out / (reserve + given) := by
  rw [le_div_iff₀ hPos]
  constructor
  · intro h
    linarith
  · intro h
    linarith

/-- Roundings against the trader leave the quotient at the exact output or below. -/
theorem quotient_le_exact (hReserve : 0 ≤ reserve) (hOut : 0 ≤ out) (hInput : 0 < input)
    (hGiven : input ≤ given) (hProduct : product ≤ input * out) (hPool : reserve + input ≤ pool)
    (hQuotient : quotient ≤ product / pool) : quotient ≤ given * out / (reserve + given) := by
  have hSum : 0 < reserve + input := by linarith
  calc
    quotient ≤ product / pool := hQuotient
    _ ≤ input * out / pool := div_le_div_of_nonneg_right hProduct (hSum.trans_le hPool).le
    _ ≤ input * out / (reserve + input) := div_le_div_of_nonneg_left (by positivity) hSum hPool
    _ ≤ given * out / (reserve + given) := by
      rw [div_le_div_iff₀ hSum (by linarith)]
      have hShare : 0 ≤ out * reserve * (given - input) :=
        mul_nonneg (mul_nonneg hOut hReserve) (by linarith)
      linarith

theorem quotient_mul_le (hReserve : 0 ≤ reserve) (hOut : 0 ≤ out) (hGiven : 0 < given)
    (hInput : |input - given| ≤ given / 10 ^ 28)
    (hProduct : |product - input * out| ≤ (1 / 2 + input * out) / 10 ^ 28)
    (hPool : |pool - (reserve + input)| ≤ (reserve + input) / 10 ^ 28)
    (hQuotient : |quotient - product / pool| ≤ (1 / 2 + product / pool) / 10 ^ 28)
    (hPos : 0 < pool) (hNonneg : 0 ≤ quotient) :
    quotient * (reserve + given) ≤
      given * out + (1 + (reserve + given) + given * out) / 10 ^ 27 := by
  obtain ⟨hInputLow, hInputHigh⟩ := abs_le.mp hInput
  obtain ⟨hPoolLow, hPoolHigh⟩ := abs_le.mp hPool
  have hProductHigh := (abs_le.mp hProduct).2
  have hQuotientHigh := (abs_le.mp hQuotient).2
  have hMoved : input * out ≤ (1 + 1 / 10 ^ 28) * given * out :=
    mul_le_mul_of_nonneg_right (by linarith) hOut
  have hScaled : quotient * pool ≤ (1 + 1 / 10 ^ 28) * product + pool / 2 / 10 ^ 28 := by
    have hBound : quotient ≤ (1 + 1 / 10 ^ 28) * (product / pool) + 1 / 2 / 10 ^ 28 := by linarith
    have hTimes := mul_le_mul_of_nonneg_right hBound hPos.le
    rw [add_mul, mul_assoc, div_mul_cancel₀ _ hPos.ne'] at hTimes
    linarith
  -- the pool is the exact one up to two errors, either way
  have hPoolAbove : (1 - 1 / 10 ^ 28) * ((1 - 1 / 10 ^ 28) * (reserve + given)) ≤ pool := by linarith
  have hPoolBelow : pool ≤ (1 + 1 / 10 ^ 28) * ((1 + 1 / 10 ^ 28) * (reserve + given)) := by linarith
  have hTotal := mul_le_mul_of_nonneg_left hPoolAbove hNonneg
  have hGain : 0 ≤ given * out := mul_nonneg hGiven.le hOut
  linarith

end Product

/-- A swap keeps the product exactly when no amount lies above the exact output and within the
quotient. It does where none of the four roundings favours the trader, and between reserves and inputs
of eighteen places what is lost at all stays below one part in `10 ^ 27`. -/
theorem reserveProduct_le_productAfter_iff
    (h : (bond.returnsForSwap sold wanted balances).outcome = .ok trade) :
    ∃ input product pool quotient, sold.amount.sub trade.fee.amount = .ok input ∧
      input.mul (balances.amountOf wanted) = .ok product ∧
      (balances.amountOf sold.denom).add input = .ok pool ∧ product.quo pool = .ok quotient ∧
      (reserveProduct balances sold.denom wanted ≤ productAfter balances sold wanted trade ↔
        ¬∃ v, IsAmount v ∧ exactOutput balances sold wanted trade < v ∧ v ≤ quotient.toRat) ∧
      (input.toRat ≤ givenBy sold trade →
        product.toRat ≤ input.toRat * (balances.amountOf wanted).toRat →
        (balances.amountOf sold.denom).toRat + input.toRat ≤ pool.toRat →
        quotient.toRat ≤ product.toRat / pool.toRat →
        reserveProduct balances sold.denom wanted ≤ productAfter balances sold wanted trade) ∧
      (IsAmount sold.amount.toRat → IsAmount (balances.amountOf sold.denom).toRat →
        reserveProduct balances sold.denom wanted ≤ productAfter balances sold wanted trade +
          (1 + ((balances.amountOf sold.denom).toRat + givenBy sold trade) +
            givenBy sold trade * (balances.amountOf wanted).toRat) / 10 ^ 27) := by
  have hFee := isAmount_fee h
  obtain ⟨hBalances, input, hInput, hPositive, hOutput, _, _⟩ := returnsForSwap_eq_ok h
  have hIn := Coins.amountOf_nonneg hBalances sold.denom
  have hOut := Coins.amountOf_nonneg hBalances wanted
  rw [reserveProduct, productAfter, exactOutput, givenBy]
  generalize balances.amountOf wanted = out at hOutput hOut ⊢
  generalize balances.amountOf sold.denom = reserve at hOutput hIn ⊢
  obtain ⟨product, pool, quotient, hProduct, hPool, hQuotient, hAmount⟩ :=
    constantProductOutput_eq_ok_iff.mp hOutput
  have hInputRounds := (computes_sub? _ _).rounds (checked_eq_ok_iff.mp hInput)
  have hProductRounds := (computes_mul? _ _).rounds (checked_eq_ok_iff.mp hProduct)
  have hPoolRounds := (computes_add? _ _).rounds (checked_eq_ok_iff.mp hPool)
  obtain ⟨hPoolPos, hQuotientRounds⟩ := roundsSigned_quotient hPositive hIn hPool hQuotient
  have hGiven : 0 < sold.amount.toRat - trade.fee.amount.toRat := by
    by_contra hNone
    exact absurd (hInputRounds.nonpos (not_lt.mp hNone)) (not_le.mpr hPositive)
  have hProductExact : 0 ≤ input.toRat * out.toRat := mul_nonneg hPositive.le hOut
  have hQuotientExact := div_nonneg (hProductRounds.nonneg hProductExact) hPoolPos.le
  have hNonneg := hQuotientRounds.nonneg hQuotientExact
  have hSum : 0 < reserve.toRat + (sold.amount.toRat - trade.fee.amount.toRat) := by linarith
  have hReturned := quantize_le hNonneg
  rw [← hAmount]
  refine ⟨input, product, pool, quotient, hInput, hProduct, hPool, hQuotient, ?_, ?_, ?_⟩
  · rw [product_kept_iff hSum]
    exact quantize_le_iff hNonneg
  · intro hInputDown hProductDown hPoolUp hQuotientDown
    rw [product_kept_iff hSum]
    exact hReturned.trans
      (quotient_le_exact hIn hOut hPositive hInputDown hProductDown hPoolUp hQuotientDown)
  · intro hSold hReserve
    have hInputAmount := hInputRounds.isAmount (hSold.sub hFee)
    have hInputError := hInputRounds.abs_sub_le_of_onGrid (by decide) (hSold.sub hFee)
    have hPoolError := hPoolRounds.abs_sub_le_of_onGrid (by decide) (hReserve.add hInputAmount)
    have hProductError := hProductRounds.abs_sub_le_add
    have hQuotientError := hQuotientRounds.abs_sub_le_add
    rw [abs_of_pos hGiven] at hInputError
    rw [abs_of_pos (add_pos_of_nonneg_of_pos hIn hPositive)] at hPoolError
    rw [abs_of_nonneg hProductExact] at hProductError
    rw [abs_of_nonneg hQuotientExact] at hQuotientError
    have hLoss := quotient_mul_le hIn hOut hGiven hInputError hProductError hPoolError hQuotientError
      hPoolPos hNonneg
    have hTaken := mul_le_mul_of_nonneg_right hReturned hSum.le
    linarith

def steepReserves : Coins :=
  ⟨[⟨"aaa", .units 1⟩, ⟨"bbb", .units 100000000000⟩], by decide⟩

/-- Two thirds of the reserve have eighteen places only by rounding up. -/
theorem reserveProduct_le_productAfter_iff_steepReserves :
    (pair.validate .strict).outcome = .ok () ∧
    ∃ trade, (pair.returnsForSwap ⟨"aaa", .units 2⟩ "bbb" steepReserves).outcome = .ok trade ∧
      trade.returns.amount = .scaled 66666666666666666666666666667 amountPlaces ∧
      productAfter steepReserves ⟨"aaa", .units 2⟩ "bbb" trade < reserveProduct steepReserves "aaa" "bbb" ∧
      (∃ quotient : Decimal, ∃ v, IsAmount v ∧
        exactOutput steepReserves ⟨"aaa", .units 2⟩ "bbb" trade < v ∧ v ≤ quotient.toRat) ∧
      reserveProduct steepReserves "aaa" "bbb" ≤
        productAfter steepReserves ⟨"aaa", .units 2⟩ "bbb" trade + (1 + 3 + 2 * 10 ^ 11) / 10 ^ 27 := by
  have hTrade : (pair.returnsForSwap ⟨"aaa", .units 2⟩ "bbb" steepReserves).outcome =
      .ok ⟨⟨"aaa", 0⟩, ⟨"bbb", .scaled 66666666666666666666666666667 amountPlaces⟩⟩ := by
    decide +kernel
  have hLess : productAfter steepReserves ⟨"aaa", .units 2⟩ "bbb"
      ⟨⟨"aaa", 0⟩, ⟨"bbb", .scaled 66666666666666666666666666667 amountPlaces⟩⟩ <
      reserveProduct steepReserves "aaa" "bbb" := by
    decide +kernel
  obtain ⟨_, _, _, quotient, _, _, _, _, hIff, _, hLoss⟩ := reserveProduct_le_productAfter_iff hTrade
  have hBound := hLoss ⟨2 * 10 ^ 18, by decide +kernel⟩ ⟨10 ^ 18, by decide +kernel⟩
  refine ⟨by decide +kernel, _, hTrade, rfl, hLess, ⟨quotient, ?_⟩, ?_⟩
  · exact not_not.mp (mt hIff.mpr hLess.not_ge)
  · have hGiven : givenBy ⟨"aaa", .units 2⟩
        ⟨⟨"aaa", 0⟩, ⟨"bbb", .scaled 66666666666666666666666666667 amountPlaces⟩⟩ = 2 := by
      decide +kernel
    have hIn : (steepReserves.amountOf "aaa").toRat = 1 := by decide +kernel
    have hOut : (steepReserves.amountOf "bbb").toRat = 10 ^ 11 := by decide +kernel
    rw [hGiven, hIn, hOut] at hBound
    linarith

end Bond

end BondingCurve
