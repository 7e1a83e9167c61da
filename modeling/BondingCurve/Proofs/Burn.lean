import BondingCurve.Proofs.Decimal.Canonical
import BondingCurve.Proofs.Liquidity

/-!
# A burn pays out of what is held

A lockstep curve pays the rounded difference of the common balance and an integral that is not negative,
a swapper the rounded product of each balance with a share that is not above one. Rounding to nearest
crosses no decimal, and both the balance and the one are decimals: neither payout exceeds the balance.
-/

namespace BondingCurve

open Logged Decimal

namespace Bond

variable {bond : Bond} {policy : Policy} {amount share balance moved : Decimal} {balances returns : Coins}

theorem Moves.le (h : Moves share balance moved) (hBalance : 0 ≤ balance.toRat) (hShare : 0 ≤ share.toRat)
    (hWhole : share.toRat ≤ 1) : moved.toRat ≤ balance.toRat := by
  obtain ⟨product, hProduct, rfl, _⟩ := h
  have hRounds := (computes_mul? _ _).rounds (checked_eq_ok_iff.mp hProduct)
  have hNonneg := hRounds.nonneg (mul_nonneg hShare hBalance)
  apply (quantize_le hNonneg).trans
  apply hRounds.ge_of_exact balance.exact_toRat
  exact mul_le_of_le_one_left hBalance hWhole

theorem moves_iff_of_whole (hBalance : 0 ≤ balance.toRat) (hWhole : share.toRat = 1) :
    Moves share balance moved ↔ balance.quantize = moved := by
  have hExact := computes_mul? share balance
  rw [hWhole, one_mul] at hExact
  obtain ⟨product, hProduct, hValue⟩ := hExact.eq_of_exact balance.exact_toRat
  have hMoved : product.quantize = balance.quantize := quantize_eq hValue
  constructor
  · rintro ⟨_, hAgain, rfl, _⟩
    cases (checked_eq_ok_iff.mp hAgain).symm.trans hProduct
    exact hMoved.symm
  · rintro rfl
    exact ⟨product, checked_eq_ok_iff.mpr hProduct, hMoved, quantize_nonneg hBalance⟩

theorem Pool.returned_bounds (h : Pool bond)
    (hReturns : (bond.returnsForBurn amount balances).outcome = .ok returns) {denom : String}
    (hd : denom ∈ bond.reserves) :
    0 ≤ (returns.amountOf denom).toRat ∧
      (returns.amountOf denom).toRat ≤ (balances.amountOf denom).toRat := by
  obtain ⟨hEnough, hReturns⟩ := h.returnsForBurn_eq_ok_iff.mp hReturns
  obtain ⟨⟨hAmount, hBalances, hSupply⟩, share, payout, hShare, hMoves, rfl⟩ :=
    h.reserveDelta_eq_ok_iff.mp hReturns
  have hRounds := (computes_div? hSupply.ne').rounds (checked_eq_ok_iff.mp hShare)
  have hNonneg := hRounds.nonneg (div_nonneg hAmount hSupply.le)
  have hWhole := hRounds.ge_of_exact ⟨1, toRat_one⟩ ((div_le_one hSupply).mpr hEnough)
  rw [Coins.amountOf_each h.ascending hd]
  exact ⟨(hMoves denom hd).nonneg,
    (hMoves denom hd).le (Coins.amountOf_nonneg hBalances denom) hNonneg hWhole⟩

/-- Burning the whole supply, which succeeds where there is one, returns every balance. -/
theorem Pool.returnsForBurn_whole (h : Pool bond) (hAmount : amount ≈ bond.supply.amount) :
    (bond.returnsForBurn amount balances).outcome = .ok returns ↔
      (0 < bond.supply.amount.toRat ∧ ¬balances.AnyNegative) ∧
        Coins.each bond.reserves h.ascending (fun denom => (balances.amountOf denom).quantize) = returns := by
  have hSame := equiv_iff_toRat_eq.mp hAmount
  rw [h.returnsForBurn_eq_ok_iff, h.reserveDelta_eq_ok_iff]
  constructor
  · rintro ⟨_, ⟨_, hBalances, hSupply⟩, share, payout, hShare, hMoves, rfl⟩
    have hRounds := (computes_div? hSupply.ne').rounds (checked_eq_ok_iff.mp hShare)
    rw [hSame, div_self hSupply.ne'] at hRounds
    have hWhole := hRounds.eq_of_exact ⟨1, toRat_one⟩
    refine ⟨⟨hSupply, hBalances⟩, Coins.each_congr h.ascending ?_⟩
    intro denom hd
    exact (moves_iff_of_whole (Coins.amountOf_nonneg hBalances denom) hWhole).mp (hMoves denom hd)
  · rintro ⟨⟨hSupply, hBalances⟩, rfl⟩
    have hExact := computes_div? (x := amount) hSupply.ne'
    rw [hSame, div_self hSupply.ne'] at hExact
    obtain ⟨share, hShare, hWhole⟩ := hExact.eq_of_exact ⟨1, toRat_one⟩
    refine ⟨hSame.le, ⟨hSame ▸ hSupply.le, hBalances, hSupply⟩, share, _, checked_eq_ok_iff.mpr hShare, ?_,
      rfl⟩
    intro denom _
    exact (moves_iff_of_whole (Coins.amountOf_nonneg hBalances denom) hWhole).mpr rfl

theorem ClosedForm.returned_bounds (h : ClosedForm bond) (hUniform : bond.Uniform balances)
    (hReturns : (bond.returnsForBurn amount balances).outcome = .ok returns) {denom : String}
    (hd : denom ∈ bond.reserves) :
    0 ≤ (returns.amountOf denom).toRat ∧
      (returns.amountOf denom).toRat ≤ (balances.amountOf denom).toRat := by
  obtain ⟨_, _, _, remaining, difference, _, hRemaining, hLe, hDifference, rfl⟩ :=
    h.returnsForBurn_eq_ok_iff.mp hReturns
  have hRounds := (computes_sub? _ _).rounds (checked_eq_ok_iff.mp hDifference)
  have hNonneg := hRounds.nonneg (sub_nonneg.mpr hLe)
  have hCommon := hRounds.ge_of_exact (bond.commonBalance balances).exact_toRat
    (sub_le_self _ (curveIntegral_nonneg hRemaining))
  have hLockstep : bond.family.lockstep = true := by
    rcases h.family with hFamily | hFamily
    · rw [hFamily]
      rfl
    · rw [hFamily]
      rfl
  rw [Coins.amountOf_each h.ascending hd, equiv_iff_toRat_eq.mp (hUniform hLockstep denom hd)]
  exact ⟨quantize_nonneg hNonneg, (quantize_le hNonneg).trans hCommon⟩

/-- A burn of a power, sigmoid or swapper bond returns at most the balance of every reserve token. A swapper
whose whole supply is burned returns every balance, cut to an amount; it does so wherever there is a supply
and no balance is negative. -/
theorem returned_le_balance (hFamily : bond.family ≠ .augmented)
    (hValid : (bond.validate policy).outcome = .ok ()) (hUniform : bond.Uniform balances) :
    (∀ returns, (bond.returnsForBurn amount balances).outcome = .ok returns →
      ∀ denom ∈ bond.reserves, 0 ≤ (returns.amountOf denom).toRat ∧
        (returns.amountOf denom).toRat ≤ (balances.amountOf denom).toRat) ∧
    (bond.family = .swapper → amount ≈ bond.supply.amount →
      ((∃ returns, (bond.returnsForBurn amount balances).outcome = .ok returns) ↔
        0 < bond.supply.amount.toRat ∧ ¬balances.AnyNegative) ∧
      ∀ returns, (bond.returnsForBurn amount balances).outcome = .ok returns →
        ∀ denom ∈ bond.reserves, (returns.amountOf denom).toRat =
          (⌊(balances.amountOf denom).toRat * 10 ^ amountPlaces⌋ : ℚ) / 10 ^ amountPlaces) := by
  constructor
  · intro returns hReturns denom hd
    cases hKind : bond.family with
    | power => exact (closedForm_of_validate (.inl hKind) hValid).returned_bounds hUniform hReturns hd
    | sigmoid => exact (closedForm_of_validate (.inr hKind) hValid).returned_bounds hUniform hReturns hd
    | swapper => exact (pool_of_validate hKind hValid).returned_bounds hReturns hd
    | augmented => exact absurd hKind hFamily
  · intro hSwapper hAmount
    have hPool := pool_of_validate hSwapper hValid
    simp only [hPool.returnsForBurn_whole hAmount]
    constructor
    · constructor
      · rintro ⟨_, hBurnable, _⟩
        exact hBurnable
      · intro hBurnable
        exact ⟨_, hBurnable, rfl⟩
    · rintro returns ⟨⟨_, hBalances⟩, rfl⟩ denom hd
      rw [Coins.amountOf_each hPool.ascending hd,
        toRat_quantize_of_nonneg (Coins.amountOf_nonneg hBalances denom)]

/-- One reserve token with twenty places, the last two of which no amount can hold. -/
def longReserves : Coins := ⟨[⟨"aaa", .scaled 5 1⟩, ⟨"bbb", .scaled 123456789012345678912 20⟩], by decide⟩

/-- Five tokens with a unit of the reserve token behind each. -/
def fiveUnits : Bond := { unitPriced with supply := ⟨"unit", .units 5⟩ }

/-- Everything that a pair holds but for the two places, and two of five units. -/
theorem returned_le_balance_longReserves :
    (pair.validate .strict).outcome = .ok () ∧
    (∃ returns, (pair.returnsForBurn .hundred longReserves).outcome = .ok returns ∧
      (returns.amountOf "bbb").toRat = 1234567890123456789 / 10 ^ 18 ∧
      ∀ denom ∈ pair.reserves, (returns.amountOf denom).toRat ≤ (longReserves.amountOf denom).toRat) ∧
    ∃ returns, (fiveUnits.returnsForBurn (.units 2) (.single "res" (.units 5))).outcome = .ok returns ∧
      (returns.amountOf "res").toRat = 2 ∧
      (returns.amountOf "res").toRat ≤ ((Coins.single "res" (.units 5)).amountOf "res").toRat := by
  have hPair : (pair.validate .strict).outcome = .ok () := by decide +kernel
  have hFive : (fiveUnits.validate .strict).outcome = .ok () := by decide +kernel
  obtain ⟨hBounds, hWhole⟩ := @returned_le_balance pair .strict .hundred longReserves (by decide) hPair
    (by decide +kernel)
  obtain ⟨hReturned, hCut⟩ := hWhole rfl (by decide +kernel)
  obtain ⟨returns, hReturns⟩ := hReturned.mpr ⟨by decide +kernel, by decide +kernel⟩
  refine ⟨hPair, ⟨returns, hReturns, ?_, fun denom hd => (hBounds returns hReturns denom hd).2⟩, ?_⟩
  · rw [hCut returns hReturns "bbb" (by decide)]
    decide +kernel
  · have hBurn : (fiveUnits.returnsForBurn (.units 2) (.single "res" (.units 5))).outcome =
        .ok (.single "res" (.units 2)) := by
      decide +kernel
    have hLe := (returned_le_balance (by decide) hFive (by decide +kernel)).1 _ hBurn "res" (by decide)
    exact ⟨_, hBurn, by decide +kernel, hLe.2⟩

end Bond

end BondingCurve
