import BondingCurve.Bond.Swap
import BondingCurve.Proofs.Quote

/-!
# When a swap stays within the reserve

The product of input and reserve, the pool it is divided by and their quotient are each rounded to
nearest. The pool is never below the input, so only a product that was rounded up can ask for more
than the reserve holds; where it does, the quotient is not brought back below the reserve.
-/

namespace BondingCurve

open Logged Decimal

namespace Decimal

variable {x : Decimal} {w : ℚ}

theorem quantize_le_iff (h : 0 ≤ x.toRat) :
    x.quantize.toRat ≤ w ↔ ¬∃ v, IsAmount v ∧ w < v ∧ v ≤ x.toRat := by
  constructor
  · rintro hLe ⟨v, ⟨k, hk⟩, hAbove, hWithin⟩
    have hFloor : k ≤ ⌊x.toRat * 10 ^ amountPlaces⌋ := by
      rw [Int.le_floor, ← hk]
      exact mul_le_mul_of_nonneg_right hWithin (by positivity)
    have hReaches : v ≤ x.quantize.toRat := by
      rw [toRat_quantize_of_nonneg h, le_div_iff₀ (by positivity), hk]
      exact_mod_cast hFloor
    linarith
  · intro hNone
    by_contra hAbove
    exact hNone ⟨_, isAmount_quantize x, not_le.mp hAbove, quantize_le h⟩

end Decimal

namespace Bond

variable {bond : Bond} {sold : Coin} {wanted : String} {balances : Coins} {trade : SwapReturn}
variable {input inReserve outReserve output product pool quotient : Decimal}

theorem constantProductOutput_eq_ok_iff :
    constantProductOutput input inReserve outReserve = .ok output ↔
      ∃ product pool quotient, input.mul outReserve = .ok product ∧ inReserve.add input = .ok pool ∧
        product.quo pool = .ok quotient ∧ quotient.quantize = output := by
  unfold constantProductOutput
  simp only [bind_eq_ok_iff]
  constructor
  · rintro ⟨product, hProduct, pool, hPool, quotient, hQuotient, hOutput⟩
    exact ⟨product, pool, quotient, hProduct, hPool, hQuotient, Except.ok.inj hOutput⟩
  · rintro ⟨product, pool, quotient, hProduct, hPool, hQuotient, rfl⟩
    exact ⟨product, hProduct, pool, hPool, quotient, hQuotient, rfl⟩

theorem returnsForSwap_eq_ok (h : (bond.returnsForSwap sold wanted balances).outcome = .ok trade) :
    ¬balances.AnyNegative ∧ ∃ input, sold.amount.sub trade.fee.amount = .ok input ∧ 0 < input.toRat ∧
      constantProductOutput input (balances.amountOf sold.denom) (balances.amountOf wanted) =
        .ok trade.returns.amount ∧
      trade.returns.amount.toRat ≠ (balances.amountOf wanted).toRat ∧ trade.returns.amount.toRat ≠ 0 := by
  unfold returnsForSwap at h
  simp only [outcome_bind_eq_ok_iff, outcome_liftM, refuseIf_eq_ok_iff, outcome_pure] at h
  obtain ⟨_, _, _, hBalances, _, _, _, _, _, _, fee, _, input, hInput, _, hPositive, output, hOutput, _,
    hDepletion, _, hNothing, _, _, _, _, hDone⟩ := h
  cases hDone
  rw [le_iff_toRat_le, toRat_zero, not_le] at hPositive
  rw [equiv_iff_toRat_eq] at hDepletion
  rw [isZero_iff_toRat] at hNothing
  exact ⟨refuseIf_eq_ok_iff.mp hBalances, input, hInput, hPositive, hOutput, hDepletion, hNothing⟩

/-- Rounding does not take the pool below the input. -/
theorem input_le_pool (hIn : 0 ≤ inReserve.toRat) (hPool : inReserve.add input = .ok pool) :
    input.toRat ≤ pool.toRat :=
  ((computes_add? _ _).rounds (checked_eq_ok_iff.mp hPool)).le_of_exact input.exact_toRat (by linarith)

section Product

variable (hInput : 0 < input.toRat) (hIn : 0 ≤ inReserve.toRat)

include hInput hIn

theorem roundsSigned_quotient (hPool : inReserve.add input = .ok pool)
    (hQuotient : product.quo pool = .ok quotient) :
    0 < pool.toRat ∧ RoundsSigned (product.toRat / pool.toRat) quotient.toRat := by
  have hPos := hInput.trans_le (input_le_pool hIn hPool)
  exact ⟨hPos, (computes_div? hPos.ne').rounds (checked_eq_ok_iff.mp hQuotient)⟩

theorem quotient_le (hPool : inReserve.add input = .ok pool) (hQuotient : product.quo pool = .ok quotient)
    (h : product.toRat ≤ pool.toRat * outReserve.toRat) : quotient.toRat ≤ outReserve.toRat := by
  obtain ⟨hPos, hRounds⟩ := roundsSigned_quotient hInput hIn hPool hQuotient
  refine hRounds.ge_of_exact outReserve.exact_toRat ?_
  rwa [div_le_iff₀ hPos, mul_comm]

theorem le_quotient (hPool : inReserve.add input = .ok pool) (hQuotient : product.quo pool = .ok quotient)
    (h : pool.toRat * outReserve.toRat ≤ product.toRat) : outReserve.toRat ≤ quotient.toRat := by
  obtain ⟨hPos, hRounds⟩ := roundsSigned_quotient hInput hIn hPool hQuotient
  refine hRounds.le_of_exact outReserve.exact_toRat ?_
  rwa [le_div_iff₀ hPos, mul_comm]

end Product

/-- A swap that is quoted returns something, and less than the reserve exactly when no amount lies
above the reserve and within the quotient. A reserve of eighteen places is overdrawn exactly when the
product exceeds pool times reserve, and none is where the product was not rounded up. -/
theorem returnsForSwap_lt_iff (h : (bond.returnsForSwap sold wanted balances).outcome = .ok trade) :
    0 < trade.returns.amount.toRat ∧
    ∃ input product pool quotient, sold.amount.sub trade.fee.amount = .ok input ∧
      input.mul (balances.amountOf wanted) = .ok product ∧
      (balances.amountOf sold.denom).add input = .ok pool ∧ product.quo pool = .ok quotient ∧
      (trade.returns.amount.toRat < (balances.amountOf wanted).toRat ↔
        ¬∃ v, IsAmount v ∧ (balances.amountOf wanted).toRat < v ∧ v ≤ quotient.toRat) ∧
      (IsAmount (balances.amountOf wanted).toRat →
        (trade.returns.amount.toRat < (balances.amountOf wanted).toRat ↔
          product.toRat ≤ pool.toRat * (balances.amountOf wanted).toRat)) ∧
      (product.toRat ≤ input.toRat * (balances.amountOf wanted).toRat →
        trade.returns.amount.toRat < (balances.amountOf wanted).toRat) := by
  obtain ⟨hBalances, input, hInput, hPositive, hOutput, hDepletion, hNothing⟩ := returnsForSwap_eq_ok h
  have hIn := Coins.amountOf_nonneg hBalances sold.denom
  have hOut := Coins.amountOf_nonneg hBalances wanted
  generalize balances.amountOf wanted = out at hOutput hDepletion hOut ⊢
  generalize balances.amountOf sold.denom = reserve at hOutput hIn ⊢
  obtain ⟨product, pool, quotient, hProduct, hPool, hQuotient, hAmount⟩ :=
    constantProductOutput_eq_ok_iff.mp hOutput
  obtain ⟨hPoolPos, hQuotientRounds⟩ := roundsSigned_quotient hPositive hIn hPool hQuotient
  have hProductNonneg : 0 ≤ product.toRat :=
    ((computes_mul? _ _).rounds (checked_eq_ok_iff.mp hProduct)).nonneg (mul_nonneg hPositive.le hOut)
  have hQuotientNonneg := hQuotientRounds.nonneg (div_nonneg hProductNonneg hPoolPos.le)
  rw [← hAmount] at hDepletion hNothing ⊢
  have hWithin : quotient.quantize.toRat < out.toRat ↔ quotient.quantize.toRat ≤ out.toRat :=
    ⟨le_of_lt, fun hLe => lt_of_le_of_ne hLe hDepletion⟩
  have hBelow : product.toRat ≤ pool.toRat * out.toRat → quotient.quantize.toRat < out.toRat := by
    intro hLe
    exact hWithin.mpr ((quantize_le hQuotientNonneg).trans (quotient_le hPositive hIn hPool hQuotient hLe))
  refine ⟨lt_of_le_of_ne (quantize_nonneg hQuotientNonneg) (Ne.symm hNothing), input, product, pool,
    quotient, hInput, hProduct, hPool, hQuotient, ?_, ?_, ?_⟩
  · rw [hWithin]
    exact quantize_le_iff hQuotientNonneg
  · intro hGrid
    refine ⟨fun hLess => ?_, hBelow⟩
    by_contra hExceeds
    have hReached := le_quotient hPositive hIn hPool hQuotient (not_le.mp hExceeds).le
    have hKept := quantize_mono hOut hReached
    rw [toRat_quantize_of_isAmount hGrid] at hKept
    exact absurd hLess (not_lt.mpr hKept)
  · intro hNotUp
    exact hBelow (hNotUp.trans (mul_le_mul_of_nonneg_right (input_le_pool hIn hPool) hOut))

def pair : Bond :=
  let bond := Bond.create "pair" "Pair" "Two reserve tokens" .zero .swapper (.ofPairs []) ["aaa", "bbb"]
    (.units 1000000)
  { bond with supply := ⟨bond.token, .hundred⟩ }

/-- Eighteen places of one reserve token, and nothing of the other. -/
def thinReserve : Coins := .single "bbb" (.scaled 123456789666666666 amountPlaces)

/-- The product keeps ten significant digits, and exceeds what the reserve is worth to the pool. -/
theorem returnsForSwap_overdraws_thinReserve :
    (pair.validate .strict).outcome = .ok () ∧ ¬thinReserve.AnyNegative ∧
    ∃ trade, (pair.returnsForSwap ⟨"aaa", .scaled 1 amountPlaces⟩ "bbb" thinReserve).outcome
        = .ok trade ∧
      (thinReserve.amountOf "bbb").toRat < trade.returns.amount.toRat ∧
      ∃ input product pool, input.mul (thinReserve.amountOf "bbb") = .ok product ∧
        (thinReserve.amountOf "aaa").add input = .ok pool ∧
        pool.toRat * (thinReserve.amountOf "bbb").toRat < product.toRat := by
  have hTrade : (pair.returnsForSwap ⟨"aaa", .scaled 1 amountPlaces⟩ "bbb"
      thinReserve).outcome =
      .ok ⟨⟨"aaa", 0⟩, ⟨"bbb", .scaled 1234567897 10⟩⟩ := by decide +kernel
  have hGrid : IsAmount (thinReserve.amountOf "bbb").toRat :=
    ⟨123456789666666666, by decide +kernel⟩
  obtain ⟨_, input, product, pool, _, _, hProduct, hPool, _, _, hIff, _⟩ := returnsForSwap_lt_iff hTrade
  have hOver : (thinReserve.amountOf "bbb").toRat <
      (scaled 1234567897 10).toRat := by decide +kernel
  refine ⟨by decide +kernel, by decide +kernel, _, hTrade, hOver, input, product, pool, hProduct, hPool, ?_⟩
  exact not_le.mp fun hLe => absurd ((hIff hGrid).mpr hLe) hOver.le.not_gt

end Bond

end BondingCurve
