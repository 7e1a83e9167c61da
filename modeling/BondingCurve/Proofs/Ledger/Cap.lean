import BondingCurve.Ledger
import BondingCurve.Proofs.Settlement

/-!
# The supply stays under its cap

The cap is checked against the same rounded sum that becomes the supply, and no quote accepts a negative
amount, so a mint raises the supply to the cap at most. A burn takes no more than there is, and a rounded
difference of decimals stays between zero and the first of them. Neither needs anything of the curve.
-/

namespace BondingCurve

open Logged Decimal

inductive Request
  | buy (amount : Decimal)
  | sell (amount : Decimal)
  | swap (sold : Coin) (wanted : String)

namespace Bond

variable {bond reached reached' : Bond} {amount total rest : Decimal} {balances coins : Coins}
  {request : Request}

def withSupply (bond : Bond) (supply : Decimal) : Bond :=
  { bond with supply := { bond.supply with amount := supply } }

@[simp]
theorem supply_withSupply (bond : Bond) (supply : Decimal) : (bond.withSupply supply).supply.amount = supply :=
  rfl

@[simp]
theorem maxSupply_withSupply (bond : Bond) (supply : Decimal) :
    (bond.withSupply supply).maxSupply = bond.maxSupply := rfl

@[simp]
theorem withSupply_withSupply (bond : Bond) (old new : Decimal) :
    (bond.withSupply old).withSupply new = bond.withSupply new := rfl

/-- The bond after a request that finds these reserve balances. -/
def meet (bond : Bond) (balances : Coins) : Request → Logged Bond
  | .buy amount => do
    bond.checkMaxSupply amount
    let _ ← bond.pricesToMint amount balances
    return bond.withSupply (← bond.supply.amount.add amount)
  | .sell amount => do
    bond.ensureSellsAllowed
    let _ ← bond.returnsForBurn amount balances
    return bond.withSupply (← bond.supply.amount.sub amount)
  | .swap sold wanted => do
    let _ ← bond.returnsForSwap sold wanted balances
    return bond

/-- A request that fails changes nothing. -/
def afterRequest (bond : Bond) (balances : Coins) (request : Request) : Bond :=
  match (bond.meet balances request).outcome with
  | .ok after => after
  | .error _ => bond

/-- The bond after requests in a row, each with the balances it finds. -/
def afterRequests (bond : Bond) (requests : List (Coins × Request)) : Bond :=
  requests.foldl (fun bond r => bond.afterRequest r.1 r.2) bond

theorem checkMaxSupply_eq_ok_iff {u : Unit} : (bond.checkMaxSupply amount).outcome = .ok u ↔
    0 ≤ bond.supply.amount.toRat ∧
      ∃ total, bond.supply.amount.add amount = .ok total ∧ total.toRat ≤ bond.maxSupply.amount.toRat := by
  simp only [checkMaxSupply, outcome_bind_eq_ok_iff, outcome_liftM, currentSupply_eq_ok_iff,
    refuseIf_eq_ok_iff, lt_iff_toRat_lt, not_lt]
  constructor
  · rintro ⟨_, ⟨hSupply, rfl⟩, hTotal⟩
    exact ⟨hSupply, hTotal⟩
  · rintro ⟨hSupply, hTotal⟩
    exact ⟨_, ⟨hSupply, rfl⟩, hTotal⟩

theorem nonneg_of_pricesToMint (h : (bond.pricesToMint amount balances).outcome = .ok coins) :
    0 ≤ amount.toRat := by
  rw [pricesToMint] at h
  obtain ⟨_, hSign, _⟩ := outcome_bind_eq_ok_iff.mp h
  exact ensureNonNegative_eq_ok_iff.mp hSign

theorem bounds_of_returnsForBurn (h : (bond.returnsForBurn amount balances).outcome = .ok coins) :
    0 ≤ amount.toRat ∧ amount.toRat ≤ bond.supply.amount.toRat := by
  simp only [returnsForBurn, outcome_bind_eq_ok_iff, outcome_liftM, ensureNonNegative_eq_ok_iff,
    currentSupply_eq_ok_iff, refuseIf_eq_ok_iff, lt_iff_toRat_lt, not_lt] at h
  obtain ⟨_, hAmount, _, _, _, ⟨_, rfl⟩, _, _, _, hEnough, _⟩ := h
  exact ⟨hAmount, hEnough⟩

/-- What a request can do to a bond. -/
theorem meet_cases (h : (bond.meet balances request).outcome = .ok reached) :
    (∃ amount total, request = .buy amount ∧ 0 ≤ amount.toRat ∧ 0 ≤ bond.supply.amount.toRat ∧
      bond.supply.amount.add amount = .ok total ∧ total.toRat ≤ bond.maxSupply.amount.toRat ∧
      reached = bond.withSupply total) ∨
    (∃ amount rest, request = .sell amount ∧ 0 ≤ amount.toRat ∧
      amount.toRat ≤ bond.supply.amount.toRat ∧ bond.supply.amount.sub amount = .ok rest ∧
      reached = bond.withSupply rest) ∨
    reached = bond := by
  cases request with
  | buy amount =>
    simp only [meet, outcome_bind_eq_ok_iff, outcome_liftM, checkMaxSupply_eq_ok_iff] at h
    obtain ⟨_, ⟨hSupply, total, hTotal, hCap⟩, _, hPrices, sum, hSum, hReached⟩ := h
    cases hTotal.symm.trans hSum
    cases hReached
    exact .inl ⟨amount, total, rfl, nonneg_of_pricesToMint hPrices, hSupply, hTotal, hCap, rfl⟩
  | sell amount =>
    simp only [meet, outcome_bind_eq_ok_iff, outcome_liftM] at h
    obtain ⟨_, _, _, hReturns, rest, hRest, hReached⟩ := h
    cases hReached
    obtain ⟨hAmount, hEnough⟩ := bounds_of_returnsForBurn hReturns
    exact .inr (.inl ⟨amount, rest, rfl, hAmount, hEnough, hRest, rfl⟩)
  | swap sold wanted =>
    obtain ⟨_, _, hReached⟩ := outcome_bind_eq_ok_iff.mp h
    cases hReached
    exact .inr (.inr rfl)

theorem sub_le_of_sub (hAmount : 0 ≤ amount.toRat) (h : total.sub amount = .ok rest) :
    rest.toRat ≤ total.toRat :=
  ((computes_sub? total amount).rounds (checked_eq_ok_iff.mp h)).ge_of_exact total.exact_toRat (by linarith)

/-- Nothing but the supply differs from `bond`, and it lies between zero and the cap. -/
structure Capped (bond reached : Bond) : Prop where
  terms : reached = bond.withSupply reached.supply.amount
  nonneg : 0 ≤ reached.supply.amount.toRat
  le_cap : reached.supply.amount.toRat ≤ bond.maxSupply.amount.toRat

namespace Capped

theorem maxSupply_eq (h : Capped bond reached) : reached.maxSupply = bond.maxSupply := by
  rw [h.terms, maxSupply_withSupply]

theorem currentSupply_eq (h : Capped bond reached) :
    reached.currentSupply.outcome = .ok reached.supply.amount :=
  currentSupply_eq_ok_iff.mpr ⟨h.nonneg, rfl⟩

theorem withSupply (h : Capped bond reached) (hNonneg : 0 ≤ total.toRat)
    (hCap : total.toRat ≤ bond.maxSupply.amount.toRat) : Capped bond (reached.withSupply total) where
  terms := by
    rw [h.terms]
    simp
  nonneg := hNonneg
  le_cap := hCap

theorem meet (h : Capped bond reached) (hMeet : (reached.meet balances request).outcome = .ok reached') :
    Capped bond reached' := by
  obtain ⟨amount, total, _, hAmount, hSupply, hTotal, hCap, rfl⟩ |
    ⟨amount, rest, _, hAmount, hEnough, hRest, rfl⟩ | rfl := meet_cases hMeet
  · rw [h.maxSupply_eq] at hCap
    exact h.withSupply (add_nonneg_of_add hSupply hAmount hTotal) hCap
  · exact h.withSupply (sub_nonneg_of_sub hEnough hRest) ((sub_le_of_sub hAmount hRest).trans h.le_cap)
  · exact h

theorem afterRequest (h : Capped bond reached) (balances : Coins) (request : Request) :
    Capped bond (reached.afterRequest balances request) := by
  rw [Bond.afterRequest]
  split
  · rename_i hMeet
    exact h.meet hMeet
  · exact h

theorem afterRequests (h : Capped bond reached) (requests : List (Coins × Request)) :
    Capped bond (reached.afterRequests requests) := by
  induction requests generalizing reached with
  | nil => exact h
  | cons r requests ih => exact ih (h.afterRequest r.1 r.2)

end Capped

end Bond

namespace Ledger

variable {l l' : Ledger} {bond : Bond} {request : Request}

/-- The ledger after a request. Unlike the bond alone it also has order limits, fees and balances to
look at, and a balance that overflows stops it after the supply has moved. -/
def meet (l : Ledger) : Request → Logged Ledger
  | .buy amount => do return (← l.buy amount).1
  | .sell amount => do return (← l.sell amount).1
  | .swap sold wanted => do return (← l.swap sold wanted).1

def afterRequest (l : Ledger) (request : Request) : Ledger :=
  match (l.meet request).outcome with
  | .ok after => after
  | .error _ => l

def afterRequests (l : Ledger) (requests : List (Coins × Request)) : Ledger :=
  requests.foldl (fun l r => { l with balances := r.1 }.afterRequest r.2) l

theorem bond_settle {α : Type} {move : String → Decimal → Option Decimal} {receipt : Ledger → Logged α}
    {settlement : Settlement α} (h : (l.settle move receipt).outcome = .ok (l', settlement)) :
    l'.bond = l.bond := by
  rw [settle] at h
  split at h
  · cases h
    rfl
  · obtain ⟨_, _, h⟩ := outcome_bind_eq_ok_iff.mp h
    obtain ⟨_, _, h⟩ := outcome_bind_eq_ok_iff.mp h
    cases h
    rfl

/-- A ledger moves its bond as the request does, or not at all. -/
theorem bond_meet (h : (l.meet request).outcome = .ok l') :
    l'.bond = l.bond ∨ (l.bond.meet l.balances request).outcome = .ok l'.bond := by
  cases request with
  | buy amount =>
    obtain ⟨⟨_, settlement⟩, hBuy, hReached⟩ := outcome_bind_eq_ok_iff.mp h
    cases hReached
    obtain ⟨_, hCap, hBuy⟩ := outcome_bind_eq_ok_iff.mp hBuy
    split at hBuy
    · cases hBuy
      exact .inl rfl
    · simp only [outcome_bind_eq_ok_iff, outcome_liftM] at hBuy
      obtain ⟨prices, hPrices, fees, _, supply, hSupply, hSettle⟩ := hBuy
      right
      rw [bond_settle hSettle]
      simp only [Bond.meet, outcome_bind_eq_ok_iff, outcome_liftM]
      exact ⟨(), hCap, prices, hPrices, supply, hSupply, rfl⟩
  | sell amount =>
    obtain ⟨⟨_, settlement⟩, hSell, hReached⟩ := outcome_bind_eq_ok_iff.mp h
    cases hReached
    simp only [sell, outcome_bind_eq_ok_iff, outcome_liftM] at hSell
    obtain ⟨_, hAllowed, returns, hReturns, fees, _, supply, hSupply, hSettle⟩ := hSell
    right
    rw [bond_settle hSettle]
    simp only [Bond.meet, outcome_bind_eq_ok_iff, outcome_liftM]
    exact ⟨(), hAllowed, returns, hReturns, supply, hSupply, rfl⟩
  | swap sold wanted =>
    obtain ⟨⟨_, settlement⟩, hSwap, hReached⟩ := outcome_bind_eq_ok_iff.mp h
    cases hReached
    obtain ⟨_, _, hSettle⟩ := outcome_bind_eq_ok_iff.mp hSwap
    exact .inl (bond_settle hSettle)

theorem capped_afterRequest (h : bond.Capped l.bond) (request : Request) :
    bond.Capped (l.afterRequest request).bond := by
  rw [afterRequest]
  split
  · rename_i l' hMeet
    obtain hSame | hMoved := bond_meet hMeet
    · rwa [hSame]
    · exact h.meet hMoved
  · exact h

theorem capped_afterRequests (h : bond.Capped l.bond) (requests : List (Coins × Request)) :
    bond.Capped (l.afterRequests requests).bond := by
  induction requests generalizing l with
  | nil => exact h
  | cons r requests ih => exact ih (capped_afterRequest (l := { l with balances := r.1 }) h r.2)

end Ledger

namespace Bond

variable {bond : Bond} {policy : Policy}

theorem capped_start (hValid : (bond.validate policy).outcome = .ok ())
    (hSupply : bond.supply.amount.toRat = 0) : bond.Capped bond where
  terms := rfl
  nonneg := hSupply.ge
  le_cap := by
    rw [hSupply]
    exact (validate_eq_ok_iff.mp hValid).cap

/-- From an accepted bond without supply, no requests with whatever amounts and balances take the supply
below zero or past the cap, and reading it never fails; be they made of the bond or of a ledger that
holds it. -/
theorem supply_within_cap (hValid : (bond.validate policy).outcome = .ok ())
    (hSupply : bond.supply.amount.toRat = 0) (requests : List (Coins × Request)) :
    (bond.Capped (bond.afterRequests requests) ∧
      (bond.afterRequests requests).currentSupply.outcome =
        .ok (bond.afterRequests requests).supply.amount) ∧
    ∀ balances l, (Ledger.mk bond balances).afterRequests requests = l →
      bond.Capped l.bond ∧ l.bond.currentSupply.outcome = .ok l.bond.supply.amount := by
  have hStart := capped_start hValid hSupply
  constructor
  · have hBond := hStart.afterRequests requests
    exact ⟨hBond, hBond.currentSupply_eq⟩
  · rintro balances _ rfl
    have hLedger := Ledger.capped_afterRequests (l := ⟨bond, balances⟩) hStart requests
    exact ⟨hLedger, hLedger.currentSupply_eq⟩

def cappedAtTen : Bond := { unitPriced with maxSupply := ⟨"unit", .units 10⟩ }

/-- Six are minted and two burned. Seven more, a burn below zero and a swap are refused; six more just fit. -/
def tradesUpToTen : List (Coins × Request) :=
  [(.empty, .buy (.units 6)), (.single "res" (.units 6), .sell (.units 2)),
    (.single "res" (.units 4), .buy (.units 7)), (.single "res" (.units 4), .sell (units 4).negate),
    (.single "res" (.units 4), .swap ⟨"res", 1⟩ "res"), (.empty, .buy (.units 6))]

theorem supply_within_cap_cappedAtTen :
    (cappedAtTen.validate .strict).outcome = .ok () ∧ cappedAtTen.supply.amount.toRat = 0 ∧
    (cappedAtTen.afterRequests tradesUpToTen).supply.amount = .units 10 ∧
    cappedAtTen.Capped (cappedAtTen.afterRequests tradesUpToTen) ∧
    ((Ledger.mk cappedAtTen .empty).afterRequests tradesUpToTen).bond.currentSupply.outcome =
      .ok (.units 10) := by
  have hValid : (cappedAtTen.validate .strict).outcome = .ok () := by decide +kernel
  have hTen : ((Ledger.mk cappedAtTen .empty).afterRequests tradesUpToTen).bond.supply.amount = .units 10 := by
    decide +kernel
  obtain ⟨⟨hCapped, _⟩, hLedger⟩ := supply_within_cap hValid toRat_zero tradesUpToTen
  refine ⟨hValid, toRat_zero, by decide +kernel, hCapped, ?_⟩
  rw [← hTen]
  exact (hLedger .empty _ rfl).2

end Bond

end BondingCurve
