import BondingCurve.Proofs.Alike
import BondingCurve.Proofs.Fees
import BondingCurve.Proofs.Traversal

/-!
# A fee is a part of what it is taken of

No accepted percentage makes a rate above one, however it is rounded, so the product that a fee covers is at
most the amount, and the least amount covering it is too. Rate, product and cover keep the order of amounts.
A coin set is charged coin by coin.
-/

namespace BondingCurve

open Decimal

section Percentage

variable {percentage amount amount' fee fee' : Decimal}

theorem quantizeUp_mono {x y : Decimal} (h : x.toRat ≤ y.toRat) :
    x.quantizeUp.toRat ≤ y.quantizeUp.toRat :=
  quantizeUp_le (isAmount_quantizeUp y) (h.trans (le_quantizeUp y))

theorem exists_rate (hNonneg : 0 ≤ percentage.toRat) (hLess : percentage.toRat < 100) :
    ∃ rate, percentage.quo .hundred = .ok rate ∧ 0 ≤ rate.toRat ∧ rate.toRat ≤ 1 := by
  have hRatio : 0 ≤ percentage.toRat / 100 := div_nonneg hNonneg (by norm_num)
  have hRatioLe : percentage.toRat / 100 ≤ 1 := by
    rw [div_le_one (by norm_num)]
    exact hLess.le
  have hOne : Exact 1 := ⟨1, toRat_one⟩
  obtain ⟨rate, hRate, hRounds⟩ :=
    (computes_div?_hundred percentage).exists_rounds_of_le_exact hRatio hOne hRatioLe
  exact ⟨rate, checked_eq_ok_iff.mpr hRate, hRounds.nonneg hRatio, hRounds.ge_of_exact hOne hRatioLe⟩

theorem exists_percentageFee (hNonneg : 0 ≤ percentage.toRat) (hLess : percentage.toRat < 100)
    (hAmount : 0 ≤ amount.toRat) (hGrid : IsAmount amount.toRat) :
    ∃ fee, percentageFee percentage amount = .ok fee ∧ 0 ≤ fee.toRat ∧ fee.toRat ≤ amount.toRat := by
  obtain ⟨rate, hRate, hRateNonneg, hRateLe⟩ := exists_rate hNonneg hLess
  have hExact : 0 ≤ rate.toRat * amount.toRat := mul_nonneg hRateNonneg hAmount
  have hPart : rate.toRat * amount.toRat ≤ amount.toRat := mul_le_of_le_one_left hAmount hRateLe
  obtain ⟨product, hProduct, hRounds⟩ :=
    (computes_mul? rate amount).exists_rounds_of_le_exact hExact amount.exact_toRat hPart
  refine ⟨product.quantizeUp, ?_, ?_, ?_⟩
  · exact percentageFee_eq_ok_iff.mpr ⟨rate, product, hRate, checked_eq_ok_iff.mpr hProduct, rfl⟩
  · exact (hRounds.nonneg hExact).trans (le_quantizeUp product)
  · exact quantizeUp_le hGrid (hRounds.ge_of_exact amount.exact_toRat hPart)

theorem percentageFee_mono (hNonneg : 0 ≤ percentage.toRat) (hLe : amount.toRat ≤ amount'.toRat)
    (h : percentageFee percentage amount = .ok fee) (h' : percentageFee percentage amount' = .ok fee') :
    fee.toRat ≤ fee'.toRat := by
  obtain ⟨rate, product, hRate, hProduct, rfl⟩ := percentageFee_eq_ok_iff.mp h
  obtain ⟨rate', product', hRate', hProduct', rfl⟩ := percentageFee_eq_ok_iff.mp h'
  cases hRate.symm.trans hRate'
  have hRateNonneg : 0 ≤ rate.toRat := (roundsSigned_rate hRate).nonneg (by positivity)
  have hRounds := (computes_mul? rate amount).rounds (checked_eq_ok_iff.mp hProduct)
  have hRounds' := (computes_mul? rate amount').rounds (checked_eq_ok_iff.mp hProduct')
  exact quantizeUp_mono (hRounds.mono (mul_le_mul_of_nonneg_left hLe hRateNonneg) hRounds')

theorem percentageFee_zero (hNonneg : 0 ≤ percentage.toRat) (hLess : percentage.toRat < 100) :
    percentageFee percentage 0 = .ok 0 := by
  obtain ⟨rate, hRate, _⟩ := exists_rate hNonneg hLess
  refine percentageFee_eq_ok_iff.mpr ⟨rate, 0, hRate, ?_, rfl⟩
  exact checked_eq_ok_iff.mpr (by rw [mul?, if_pos (.inr rfl)])

end Percentage

namespace Coin

variable {percentage : Decimal} {coin coin' charged charged' : Coin}

/-- A non-negative amount of at most eighteen places. -/
def HoldsAmount (coin : Coin) : Prop := 0 ≤ coin.amount.toRat ∧ IsAmount coin.amount.toRat

/-- A fee in the denomination of the coin that it is taken of, and not above that coin. -/
structure PartOf (coin charged : Coin) : Prop where
  denom : charged.denom = coin.denom
  nonneg : 0 ≤ charged.amount.toRat
  le : charged.amount.toRat ≤ coin.amount.toRat

theorem HoldsAmount.exists_fee (h : coin.HoldsAmount) (hNonneg : 0 ≤ percentage.toRat)
    (hLess : percentage.toRat < 100) : ∃ charged, coin.fee percentage = .ok charged ∧ coin.PartOf charged := by
  obtain ⟨fee, hFee, hFeeNonneg, hFeeLe⟩ := exists_percentageFee hNonneg hLess h.1 h.2
  exact ⟨⟨coin.denom, fee⟩, fee_eq_ok_iff.mpr ⟨rfl, hFee⟩, rfl, hFeeNonneg, hFeeLe⟩

end Coin

namespace Coins

variable {percentage : Decimal} {coins charged : Coins} {list : List Coin}

/-- What is charged coin by coin stays in the order of the coins. -/
theorem denoms_of_forall₂
    (h : List.Forall₂ (fun c d : Coin => c.fee percentage = .ok d) coins.toList list) :
    list.map (·.denom) = coins.denoms ∧ list.Pairwise (·.denom < ·.denom) := by
  have hDenoms : list.map (·.denom) = coins.toList.map (·.denom) := by
    generalize coins.toList = cs at h
    induction h with
    | nil => rfl
    | cons hFirst _ ih => rw [List.map_cons, List.map_cons, ih, (Coin.fee_eq_ok_iff.mp hFirst).1]
  refine ⟨hDenoms, ?_⟩
  rw [← List.pairwise_map (f := Coin.denom), hDenoms, List.pairwise_map]
  exact coins.ascending

theorem fees_eq_ok_iff : coins.fees percentage = .ok charged ↔
    List.Forall₂ (fun c d : Coin => c.fee percentage = .ok d) coins.toList charged.toList := by
  rw [fees, bind_eq_ok_iff]
  constructor
  · rintro ⟨list, hList, hCharged⟩
    have hEach := mapM_eq_ok_iff_forall₂.mp hList
    rw [ofList_of_pairwise (denoms_of_forall₂ hEach).2] at hCharged
    cases hCharged
    exact hEach
  · intro hEach
    exact ⟨charged.toList, mapM_eq_ok_iff_forall₂.mpr hEach, ofList_of_pairwise charged.ascending⟩

theorem exists_fees (h : ∀ c ∈ coins.toList, ∃ d, c.fee percentage = .ok d) :
    ∃ charged, coins.fees percentage = .ok charged := by
  obtain ⟨list, hList⟩ := exists_mapM_eq_ok_iff.mpr h
  have hEach := mapM_eq_ok_iff_forall₂.mp hList
  exact ⟨⟨list, (denoms_of_forall₂ hEach).2⟩, fees_eq_ok_iff.mpr hEach⟩

/-- The fee on a coin set holds of each denomination the fee on what the set holds of it. -/
theorem percentageFee_amountOf (hNonneg : 0 ≤ percentage.toRat) (hLess : percentage.toRat < 100)
    (h : coins.fees percentage = .ok charged) (denom : String) :
    percentageFee percentage (coins.amountOf denom) = .ok (charged.amountOf denom) := by
  have hTests : ∀ c d : Coin, c.fee percentage = .ok d → (c.denom == denom) = (d.denom == denom) := by
    intro c d hFee
    rw [(Coin.fee_eq_ok_iff.mp hFee).1]
  have hFound := rel_find? hTests (fees_eq_ok_iff.mp h)
  rw [amountOf_eq_find?, amountOf_eq_find?]
  cases hc : coins.toList.find? (·.denom == denom) with
  | none =>
    cases hd : charged.toList.find? (·.denom == denom) with
    | none => exact percentageFee_zero hNonneg hLess
    | some d =>
      rw [hc, hd] at hFound
      cases hFound
  | some c =>
    cases hd : charged.toList.find? (·.denom == denom) with
    | none =>
      rw [hc, hd] at hFound
      cases hFound
    | some d =>
      rw [hc, hd] at hFound
      cases hFound with
      | some hFee => exact (Coin.fee_eq_ok_iff.mp hFee).2

theorem holdsAmount_amountOf (h : ∀ c ∈ coins.toList, c.HoldsAmount) (denom : String) :
    (Coin.mk denom (coins.amountOf denom)).HoldsAmount := by
  rw [amountOf_eq_find?]
  split
  · rename_i c hc
    exact h c (List.mem_of_find?_eq_some hc)
  · exact ⟨toRat_zero.ge, 0, by rw [toRat_zero, zero_mul, Int.cast_zero]⟩

end Coins

namespace Bond

variable {bond : Bond} {policy : Policy}

/-- A fee on an amount of at most eighteen places is charged, is a part of that amount, and is not above the
fee on a larger one. A coin set is charged in each of its denominations and in no other, and what holds of a
coin holds of the set denomination by denomination. -/
theorem fees_within_amounts (hValid : (bond.validate policy).outcome = .ok ()) :
    (∀ fee ∈ [bond.feeOnTrade, bond.feeOnExit], ∀ coin coin' : Coin,
      coin.HoldsAmount → coin'.HoldsAmount → coin.amount ≤ coin'.amount →
        ∃ charged charged', fee coin = .ok charged ∧ fee coin' = .ok charged' ∧
          coin.PartOf charged ∧ charged.amount ≤ charged'.amount) ∧
    ∀ fees ∈ [bond.feesOnTrade, bond.feesOnExit], ∀ coins coins' : Coins,
      (∀ c ∈ coins.toList, c.HoldsAmount) → (∀ c ∈ coins'.toList, c.HoldsAmount) →
        ∃ charged charged', fees coins = .ok charged ∧ fees coins' = .ok charged' ∧
          charged.denoms = coins.denoms ∧ ∀ denom,
            (Coin.mk denom (coins.amountOf denom)).PartOf ⟨denom, charged.amountOf denom⟩ ∧
            (coins.amountOf denom ≤ coins'.amountOf denom →
              charged.amountOf denom ≤ charged'.amountOf denom) := by
  have hAccepted := validate_eq_ok_iff.mp hValid
  have hPercent : ∀ percentage ∈ [bond.txFee, bond.exitFee],
      0 ≤ percentage.toRat ∧ percentage.toRat < 100 := by
    intro percentage h
    exact hAccepted.percent_bounds (by simpa using h)
  constructor
  · intro fee hFee coin coin' hCoin hCoin' hLe
    obtain ⟨percentage, hMem, rfl⟩ : ∃ p ∈ [bond.txFee, bond.exitFee], Coin.fee p = fee := List.mem_map.mp hFee
    obtain ⟨hNonneg, hLess⟩ := hPercent percentage hMem
    obtain ⟨charged, hCharged, hPart⟩ := hCoin.exists_fee hNonneg hLess
    obtain ⟨charged', hCharged', _⟩ := hCoin'.exists_fee hNonneg hLess
    refine ⟨charged, charged', hCharged, hCharged', hPart, le_iff_toRat_le.mpr ?_⟩
    exact percentageFee_mono hNonneg (le_iff_toRat_le.mp hLe) (Coin.fee_eq_ok_iff.mp hCharged).2
      (Coin.fee_eq_ok_iff.mp hCharged').2
  · intro fees hFees coins coins' hCoins hCoins'
    obtain ⟨percentage, hMem, rfl⟩ : ∃ p ∈ [bond.txFee, bond.exitFee], Coins.fees p = fees :=
      List.mem_map.mp hFees
    obtain ⟨hNonneg, hLess⟩ := hPercent percentage hMem
    have hSucceeds : ∀ set : Coins, (∀ c ∈ set.toList, c.HoldsAmount) →
        ∃ charged, set.fees percentage = .ok charged := by
      intro set hSet
      apply Coins.exists_fees
      intro c hc
      obtain ⟨d, hd, _⟩ := (hSet c hc).exists_fee hNonneg hLess
      exact ⟨d, hd⟩
    obtain ⟨charged, hCharged⟩ := hSucceeds coins hCoins
    obtain ⟨charged', hCharged'⟩ := hSucceeds coins' hCoins'
    refine ⟨charged, charged', hCharged, hCharged',
      (Coins.denoms_of_forall₂ (Coins.fees_eq_ok_iff.mp hCharged)).1, fun denom => ?_⟩
    have hFee := Coins.percentageFee_amountOf hNonneg hLess hCharged denom
    have hFee' := Coins.percentageFee_amountOf hNonneg hLess hCharged' denom
    have hHolds := Coins.holdsAmount_amountOf hCoins denom
    constructor
    · obtain ⟨fee, hSome, hFeeNonneg, hFeeLe⟩ := exists_percentageFee hNonneg hLess hHolds.1 hHolds.2
      cases hSome.symm.trans hFee
      exact ⟨rfl, hFeeNonneg, hFeeLe⟩
    · intro hLe
      exact le_iff_toRat_le.mpr (percentageFee_mono hNonneg (le_iff_toRat_le.mp hLe) hFee hFee')

/-- Fees that together fall one unit of the last place short of a hundred percent. -/
def steepFees : Bond :=
  { pair with txFee := .scaled 9949999999999999999999999999 26, exitFee := .scaled 5 1 }

/-- All of a reserve token that ninety-six bits can hold with eighteen places, and the least of another. -/
def unevenCoins : Coins :=
  ⟨[⟨"aaa", .scaled (2 ^ 96 - 1) amountPlaces⟩, ⟨"bbb", .scaled 1 amountPlaces⟩], by decide⟩

/-- A fee of all but the whole percentage is still within the amount, and one of the least amount takes all
of it. -/
theorem fees_within_amounts_steepFees :
    (steepFees.validate .strict).outcome = .ok () ∧
    (∀ c ∈ unevenCoins.toList, c.HoldsAmount) ∧
    (∃ charged charged', steepFees.feeOnTrade ⟨"bbb", .scaled 1 amountPlaces⟩ = .ok charged ∧
      steepFees.feeOnTrade largeCoin = .ok charged' ∧
      charged.amount = .scaled 1 amountPlaces ∧ charged.amount ≤ charged'.amount) ∧
    ∃ charged, steepFees.feesOnExit unevenCoins = .ok charged ∧ charged.denoms = ["aaa", "bbb"] ∧
      charged.amountOf "aaa" ≤ unevenCoins.amountOf "aaa" ∧
      charged.amountOf "bbb" ≤ unevenCoins.amountOf "bbb" := by
  have hValid : (steepFees.validate .strict).outcome = .ok () := by decide +kernel
  have hUneven : ∀ c ∈ unevenCoins.toList, c.HoldsAmount := by
    intro c hc
    have hCases : c = ⟨"aaa", .scaled (2 ^ 96 - 1) amountPlaces⟩ ∨ c = ⟨"bbb", .scaled 1 amountPlaces⟩ := by
      simpa [unevenCoins] using hc
    rcases hCases with rfl | rfl
    · exact ⟨by decide +kernel, 2 ^ 96 - 1, by decide +kernel⟩
    · exact ⟨by decide +kernel, 1, by decide +kernel⟩
  have hLeast : Coin.HoldsAmount ⟨"bbb", .scaled 1 amountPlaces⟩ :=
    ⟨by decide +kernel, 1, by decide +kernel⟩
  have hLarge : largeCoin.HoldsAmount :=
    ⟨by decide +kernel, 30000000000000000000000000001, by decide +kernel⟩
  obtain ⟨hCoin, hSet⟩ := fees_within_amounts hValid
  obtain ⟨charged, charged', hCharged, hCharged', _, hLe⟩ :=
    hCoin steepFees.feeOnTrade (.head _) _ _ hLeast hLarge (by decide +kernel)
  obtain ⟨set, _, hFees, _, hDenoms, hEach⟩ :=
    hSet steepFees.feesOnExit (.tail _ (.head _)) unevenCoins unevenCoins hUneven hUneven
  refine ⟨hValid, hUneven, ⟨charged, charged', hCharged, hCharged', ?_, hLe⟩, set, hFees, ?_, ?_, ?_⟩
  · have hFee : steepFees.feeOnTrade ⟨"bbb", .scaled 1 amountPlaces⟩ = .ok ⟨"bbb", .scaled 1 amountPlaces⟩ := by
      decide +kernel
    cases hCharged.symm.trans hFee
    rfl
  · rw [hDenoms]
    rfl
  · exact le_iff_toRat_le.mpr (hEach "aaa").1.le
  · exact le_iff_toRat_le.mpr (hEach "bbb").1.le

end Bond

end BondingCurve
