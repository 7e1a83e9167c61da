import BondingCurve.Ledger
import BondingCurve.Proofs.Settlement

/-!
# Orders on a ledger

A mint and a redemption are a buy and a sell without order limits and fees. A buy or a sell that is
carried out is one of them. On a bond with a closed form either moves every reserve token by the
same whole amount.
-/

namespace BondingCurve

open Logged Decimal

section Lists

variable {denoms : List String} {coins : List Coin}

theorem mapM_eq_ok_iff {move : String → Except Error Decimal} :
    (denoms.mapM fun denom => do return Coin.mk denom (← move denom)) = .ok coins ↔
      ∃ f : String → Decimal, (∀ denom ∈ denoms, move denom = .ok (f denom)) ∧
        (denoms.map fun denom => ⟨denom, f denom⟩) = coins := by
  constructor
  · intro h
    refine ⟨fun denom => (move denom).toOption.getD 0, ?_⟩
    dsimp only
    induction denoms generalizing coins with
    | nil =>
      cases h
      exact ⟨by simp, rfl⟩
    | cons first rest ih =>
      rw [List.mapM_cons] at h
      obtain ⟨c, hFirst, h⟩ := bind_eq_ok_iff.mp h
      obtain ⟨cs, hRest, h⟩ := bind_eq_ok_iff.mp h
      obtain ⟨amount, hAmount, hc⟩ := bind_eq_ok_iff.mp hFirst
      cases hc
      cases h
      obtain ⟨hMoves, hCoins⟩ := ih hRest
      have hValue : (move first).toOption.getD 0 = amount := by rw [hAmount]; rfl
      constructor
      · intro denom hd
        rcases List.mem_cons.mp hd with rfl | hLater
        · rw [hValue, hAmount]
        · exact hMoves denom hLater
      · rw [List.map_cons, hCoins, hValue]
  · rintro ⟨f, hMoves, rfl⟩
    induction denoms with
    | nil => rfl
    | cons first rest ih =>
      rw [List.mapM_cons, hMoves first List.mem_cons_self,
        ih fun denom hd => hMoves denom (List.mem_cons_of_mem _ hd)]
      rfl

theorem mapM_checked_eq_ok_iff {operation : Operation} {move : String → Option Decimal} :
    (denoms.mapM fun denom => do return Coin.mk denom (← checked operation (move denom))) = .ok coins ↔
      (denoms.mapM fun denom => do return Coin.mk denom (← move denom)) = some coins := by
  induction denoms generalizing coins with
  | nil =>
    rw [List.mapM_nil, List.mapM_nil]
    change Except.ok [] = Except.ok coins ↔ some [] = some coins
    simp
  | cons first rest ih =>
    rw [List.mapM_cons, List.mapM_cons, bind_eq_ok_iff, Option.bind_eq_bind, Option.bind_eq_some_iff]
    have hFirst : ∀ c, (do return Coin.mk first (← checked operation (move first)) : Except Error Coin)
        = .ok c ↔ (do return Coin.mk first (← move first) : Option Coin) = some c := by
      intro c
      cases move first with
      | none =>
        constructor
        · intro h
          cases h
        · intro h
          cases h
      | some amount =>
        change Except.ok (Coin.mk first amount) = Except.ok c ↔ some (Coin.mk first amount) = some c
        simp
    refine exists_congr fun c => and_congr (hFirst c) ?_
    rw [bind_eq_ok_iff, Option.bind_eq_bind, Option.bind_eq_some_iff]
    refine exists_congr fun cs => and_congr ih ?_
    change Except.ok (c :: cs) = Except.ok coins ↔ some (c :: cs) = some coins
    simp

end Lists

namespace Ledger

variable {l l' : Ledger} {amount : Decimal} {balances paid returns : Coins}

def shifted (l : Ledger) (move : String → Decimal → Except Error Decimal) : Except Error Coins := do
  Coins.ofList (← l.bond.reserves.mapM fun denom => do
    return Coin.mk denom (← move denom (l.balances.amountOf denom)))

/-- A buy by its quote alone, with what is paid for it. -/
def mint (l : Ledger) (amount : Decimal) : Logged (Ledger × Coins) := do
  l.bond.checkMaxSupply amount
  let paid := (← l.bond.pricesToMint amount l.balances).roundUp
  let supply ← l.bond.supply.amount.add amount
  let balances ← l.shifted fun denom old => old.add (paid.amountOf denom)
  return ({ l.withSupply supply with balances := balances }, paid)

/-- A sell by its quote alone, with what is returned for it. -/
def redeem (l : Ledger) (amount : Decimal) : Logged (Ledger × Coins) := do
  l.bond.ensureSellsAllowed
  let returns := (← l.bond.returnsForBurn amount l.balances).roundDown
  let supply ← l.bond.supply.amount.sub amount
  let balances ← l.shifted fun denom old => old.sub (returns.amountOf denom)
  return ({ l.withSupply supply with balances := balances }, returns)

theorem shifted_eq_ok_iff (h : l.bond.reserves.Pairwise (· < ·))
    {move : String → Decimal → Except Error Decimal} :
    l.shifted move = .ok balances ↔
      ∃ f, (∀ denom ∈ l.bond.reserves, move denom (l.balances.amountOf denom) = .ok (f denom)) ∧
        Coins.each l.bond.reserves h f = balances := by
  unfold shifted
  rw [bind_eq_ok_iff]
  constructor
  · rintro ⟨coins, hCoins, hBalances⟩
    obtain ⟨f, hMoves, rfl⟩ := mapM_eq_ok_iff.mp hCoins
    rw [Coins.ofList_each h] at hBalances
    exact ⟨f, hMoves, Except.ok.inj hBalances⟩
  · rintro ⟨f, hMoves, rfl⟩
    exact ⟨_, mapM_eq_ok_iff.mpr ⟨f, hMoves, rfl⟩, Coins.ofList_each h⟩

theorem settle_eq_done_iff {α : Type} (operation : Operation) {move : String → Decimal → Option Decimal}
    {receipt : Ledger → Logged α} {r : α} :
    (l.settle move receipt).outcome = .ok (l', .done r) ↔
      ∃ balances, (l.shifted fun denom old => checked operation (move denom old)) = .ok balances ∧
        l' = { l with balances := balances } ∧ (receipt l').outcome = .ok r := by
  have hShifted : ∀ balances, (l.shifted fun denom old => checked operation (move denom old)) = .ok balances ↔
      ∃ coins, l.moved move = some coins ∧ Coins.ofList coins = .ok balances := by
    intro balances
    unfold shifted moved
    simp only [bind_eq_ok_iff, mapM_checked_eq_ok_iff]
  simp only [hShifted]
  unfold settle
  cases l.moved move with
  | none =>
    constructor
    · intro h
      cases h
    · rintro ⟨_, ⟨_, hMoved, _⟩, _⟩
      cases hMoved
  | some coins =>
    simp only [outcome_bind_eq_ok_iff, outcome_liftM, outcome_pure]
    constructor
    · rintro ⟨balances, hBalances, _, hReceipt, hDone⟩
      cases hDone
      exact ⟨balances, ⟨coins, rfl, hBalances⟩, rfl, hReceipt⟩
    · rintro ⟨balances, ⟨_, ⟨⟩, hBalances⟩, rfl, hReceipt⟩
      exact ⟨balances, hBalances, r, hReceipt, rfl⟩

/-- A buy is carried out exactly when it is a mint within the limits whose fees can be computed. -/
theorem buy_eq_done_iff {receipt : Purchase} :
    (l.buy amount).outcome = .ok (l', .done receipt) ↔
      (l.mint amount).outcome = .ok (l', receipt.paid) ∧
        ¬l.bond.LimitsExceeded (.single l.bond.token amount) ∧
        l.bond.feesOnTrade receipt.paid = .ok receipt.fees := by
  unfold buy mint
  simp only [outcome_bind_eq_ok_iff, outcome_liftM, outcome_pure]
  constructor
  · rintro ⟨_, hSupply, h⟩
    by_cases hLimits : l.bond.LimitsExceeded (.single l.bond.token amount)
    · rw [if_pos hLimits] at h
      cases h
    · rw [if_neg hLimits] at h
      simp only [outcome_bind_eq_ok_iff, outcome_liftM,
        settle_eq_done_iff .add] at h
      obtain ⟨quote, hQuote, fees, hFees, supply, hTotal, balances, hBalances, rfl, hReceipt⟩ := h
      cases hReceipt
      exact ⟨⟨(), hSupply, quote, hQuote, supply, hTotal, balances, hBalances, rfl⟩, hLimits, hFees⟩
  · rintro ⟨⟨_, hSupply, quote, hQuote, supply, hTotal, balances, hBalances, hDone⟩, hLimits, hFees⟩
    obtain ⟨rfl, hPaid⟩ := Prod.mk.inj (Except.ok.inj hDone)
    refine ⟨(), hSupply, ?_⟩
    rw [if_neg hLimits]
    simp only [outcome_bind_eq_ok_iff, outcome_liftM, settle_eq_done_iff .add]
    rw [← hPaid] at hFees
    refine ⟨quote, hQuote, _, hFees, supply, hTotal, balances, hBalances, rfl, ?_⟩
    rw [hPaid]
    rfl

/-- A sell is carried out exactly when it is a redemption whose fees can be computed. -/
theorem sell_eq_done_iff {receipt : Sale} :
    (l.sell amount).outcome = .ok (l', .done receipt) ↔
      (l.redeem amount).outcome = .ok (l', receipt.returns) ∧
        l.bond.feesOnExit receipt.returns = .ok receipt.fees := by
  unfold sell redeem
  simp only [outcome_bind_eq_ok_iff, outcome_liftM, outcome_pure, settle_eq_done_iff .sub]
  constructor
  · rintro ⟨_, hAllowed, quote, hQuote, fees, hFees, supply, hRest, balances, hBalances, rfl, hReceipt⟩
    cases hReceipt
    exact ⟨⟨(), hAllowed, quote, hQuote, supply, hRest, balances, hBalances, rfl⟩, hFees⟩
  · rintro ⟨⟨_, hAllowed, quote, hQuote, supply, hRest, balances, hBalances, hDone⟩, hFees⟩
    obtain ⟨rfl, hReturns⟩ := Prod.mk.inj (Except.ok.inj hDone)
    rw [← hReturns] at hFees
    refine ⟨(), hAllowed, quote, hQuote, _, hFees, supply, hRest, balances, hBalances, rfl, ?_⟩
    rw [hReturns]

end Ledger

end BondingCurve
