import BondingCurve.Proofs.Ledger.Orders

/-!
# What an order does to a sound ledger

Where all reserve tokens hold one whole amount, a mint adds one whole charge to each of them and a
redemption takes one whole payment from each.
-/

namespace BondingCurve

open Logged Decimal

namespace Decimal

variable {x y z : Decimal} {m n : Nat}

theorem lt_of_toRat_eq_natCast (h : x.toRat = m) : m < 2 ^ 96 := by
  have hBound := x.toMagnitude.toRat_lt
  rw [← toRat_of_nonneg (h ▸ Nat.cast_nonneg m), h] at hBound
  exact_mod_cast hBound

/-- A sum of whole amounts is exact or overflows. -/
theorem toRat_add_natCast (hx : x.toRat = m) (hy : y.toRat = n) (h : x.add y = .ok z) :
    z.toRat = (m + n : Nat) := by
  have hRounds := (computes_add? x y).rounds (checked_eq_ok_iff.mp h)
  have hSum : x.toRat + y.toRat = (m + n : Nat) := by rw [hx, hy, Nat.cast_add]
  rw [hSum] at hRounds
  rcases Nat.lt_or_ge (m + n) (2 ^ 96) with hFits | hLong
  · exact hRounds.eq_of_exact (exact_natCast hFits)
  · have hLongRat : (2 : ℚ) ^ 96 ≤ (m + n : Nat) := by exact_mod_cast hLong
    exact absurd (hRounds.rounds (Nat.cast_nonneg _)) (Rounds.not_of_tooLong (Nat.cast_nonneg _) hLongRat)

theorem exists_sub_natCast (hx : x.toRat = m) (hy : y.toRat = n) (h : n ≤ m) :
    ∃ z, x.sub y = .ok z ∧ z.toRat = (m - n : Nat) := by
  have hDifference : x.toRat - y.toRat = (m - n : Nat) := by rw [hx, hy, Nat.cast_sub h]
  have hComputes := computes_sub? x y
  rw [hDifference] at hComputes
  have hBound := lt_of_toRat_eq_natCast hx
  obtain ⟨z, hz, hValue⟩ := hComputes.eq_of_exact (exact_natCast (by omega))
  exact ⟨z, checked_eq_ok_iff.mpr hz, hValue⟩

end Decimal

inductive Order
  | buy (amount : Decimal)
  | sell (amount : Decimal)

namespace Ledger

variable {l l' : Ledger} {bond : Bond} {amount : Decimal} {paid returns : Coins} {N : Nat}

def fresh (bond : Bond) : Ledger := ⟨bond, .empty⟩

def fill (l : Ledger) : Order → Logged (Ledger × Coins)
  | .buy amount => l.mint amount
  | .sell amount => l.redeem amount

/-- The ledger after an order; one that fails changes nothing. -/
def after (l : Ledger) (order : Order) : Ledger :=
  match (l.fill order).outcome with
  | .ok (l', _) => l'
  | .error _ => l

def run (l : Ledger) (orders : List Order) : Ledger := orders.foldl after l

theorem run_append_singleton (l : Ledger) (past : List Order) (order : Order) :
    l.run (past ++ [order]) = (l.run past).after order := by
  unfold run
  rw [List.foldl_append]
  rfl

theorem after_cases (l : Ledger) (order : Order) :
    l.after order = l ∨ ∃ receipt, (l.fill order).outcome = .ok (l.after order, receipt) := by
  unfold after
  cases hOutcome : (l.fill order).outcome with
  | error e => exact .inl rfl
  | ok result => exact .inr ⟨result.2, rfl⟩

/-- Nothing but the supply of the bond has changed. -/
def KeepsTerms (l : Ledger) (bond : Bond) : Prop :=
  ∃ supply, l.bond = ((fresh bond).withSupply supply).bond

theorem keepsTerms_fresh (bond : Bond) : (fresh bond).KeepsTerms bond := ⟨bond.supply.amount, rfl⟩

theorem KeepsTerms.of_withSupply {supply : Decimal} (h : l.KeepsTerms bond)
    (hBond : l'.bond = (l.withSupply supply).bond) : l'.KeepsTerms bond := by
  obtain ⟨_, hTerms⟩ := h
  refine ⟨supply, ?_⟩
  rw [hBond]
  unfold withSupply
  rw [hTerms]
  rfl

theorem KeepsTerms.reserves (h : l.KeepsTerms bond) : l.bond.reserves = bond.reserves := by
  obtain ⟨_, hTerms⟩ := h
  rw [hTerms]
  rfl

theorem KeepsTerms.curveIntegral (h : l.KeepsTerms bond) (x : Decimal) :
    l.bond.curveIntegral x = bond.curveIntegral x := by
  obtain ⟨_, hTerms⟩ := h
  rw [hTerms]
  rfl

theorem mint_eq_ok (hClosed : l.bond.ClosedForm) (h : (l.mint amount).outcome = .ok (l', paid)) :
    (0 ≤ amount.toRat ∧ ¬l.balances.AnyNegative ∧ 0 ≤ l.bond.supply.amount.toRat) ∧
      ∃ total target difference f, l.bond.supply.amount.add amount = .ok total ∧
        (l.bond.curveIntegral total).outcome = .ok target ∧
        target.sub (l.bond.commonBalance l.balances) = .ok difference ∧
        (∀ denom ∈ l.bond.reserves,
          (l.balances.amountOf denom).add (Bond.deposit difference).ceilUnits = .ok (f denom)) ∧
        l' = { l.withSupply total with balances := Coins.each l.bond.reserves hClosed.ascending f } ∧
        ∀ denom ∈ l.bond.reserves, paid.amountOf denom = (Bond.deposit difference).ceilUnits := by
  unfold mint at h
  obtain ⟨_, _, h⟩ := outcome_bind_eq_ok_iff.mp h
  obtain ⟨prices, hPrices, h⟩ := outcome_bind_eq_ok_iff.mp h
  obtain ⟨supply, hSupply, h⟩ := outcome_bind_eq_ok_iff.mp h
  obtain ⟨balances, hBalances, h⟩ := outcome_bind_eq_ok_iff.mp h
  obtain ⟨rfl, rfl⟩ := Prod.mk.inj (Except.ok.inj h)
  obtain ⟨hSigns, total, target, difference, hTotal, hTarget, hDifference, rfl⟩ :=
    hClosed.pricesToMint_eq_ok_iff.mp hPrices
  rw [outcome_liftM] at hSupply hBalances
  cases hSupply.symm.trans hTotal
  obtain ⟨f, hMoves, rfl⟩ := (shifted_eq_ok_iff hClosed.ascending).mp hBalances
  refine ⟨hSigns, supply, target, difference, f, hTotal, hTarget, hDifference, ?_, rfl, ?_⟩
  · intro denom hd
    have hMove := hMoves denom hd
    rwa [Bond.amountOf_roundUp_each hClosed.ascending hd] at hMove
  · intro denom hd
    exact Bond.amountOf_roundUp_each hClosed.ascending hd

theorem redeem_eq_ok_iff (hClosed : l.bond.ClosedForm) :
    (l.redeem amount).outcome = .ok (l', returns) ↔
      l.bond.allowSells = true ∧
      (0 ≤ amount.toRat ∧ ¬l.balances.AnyNegative ∧ 0 ≤ l.bond.supply.amount.toRat) ∧
      amount.toRat ≤ l.bond.supply.amount.toRat ∧
      ∃ rest remaining difference f, l.bond.supply.amount.sub amount = .ok rest ∧
        (l.bond.curveIntegral rest).outcome = .ok remaining ∧
        remaining.toRat ≤ (l.bond.commonBalance l.balances).toRat ∧
        (l.bond.commonBalance l.balances).sub remaining = .ok difference ∧
        (∀ denom ∈ l.bond.reserves,
          (l.balances.amountOf denom).sub difference.quantize.truncateUnits = .ok (f denom)) ∧
        l' = { l.withSupply rest with balances := Coins.each l.bond.reserves hClosed.ascending f } ∧
        returns = (Coins.each l.bond.reserves hClosed.ascending fun _ => difference.quantize).roundDown := by
  unfold redeem
  simp only [outcome_bind_eq_ok_iff, outcome_liftM, outcome_pure, hClosed.returnsForBurn_eq_ok_iff,
    shifted_eq_ok_iff hClosed.ascending, Bond.ensureSellsAllowed, refuseIf_eq_ok_iff,
    Bool.not_eq_false]
  constructor
  · rintro ⟨_, hAllowed, _, ⟨hSigns, hLe, rest, remaining, difference, hRest, hRemaining, hEnough,
      hDifference, rfl⟩, supply, hSupply, _, ⟨f, hMoves, rfl⟩, hDone⟩
    cases hSupply.symm.trans hRest
    obtain ⟨rfl, rfl⟩ := Prod.mk.inj (Except.ok.inj hDone)
    refine ⟨hAllowed, hSigns, hLe, rest, remaining, difference, f, hRest, hRemaining, hEnough,
      hDifference, ?_, rfl, rfl⟩
    intro denom hd
    have hMove := hMoves denom hd
    rwa [Bond.amountOf_roundDown_each hClosed.ascending hd] at hMove
  · rintro ⟨hAllowed, hSigns, hLe, rest, remaining, difference, f, hRest, hRemaining, hEnough,
      hDifference, hMoves, rfl, rfl⟩
    refine ⟨(), hAllowed, _, ⟨hSigns, hLe, rest, remaining, difference, hRest, hRemaining, hEnough,
      hDifference, rfl⟩, rest, hRest, _, ⟨f, ?_, rfl⟩, rfl⟩
    intro denom hd
    rw [Bond.amountOf_roundDown_each hClosed.ascending hd]
    exact hMoves denom hd

/-- All reserve tokens hold one whole amount, and nothing is negative. -/
structure Sound (l : Ledger) (N : Nat) : Prop where
  closed : l.bond.ClosedForm
  holds : l.bond.Holds l.balances N
  signs : ¬l.balances.AnyNegative
  supply_nonneg : 0 ≤ l.bond.supply.amount.toRat

theorem sound_fresh (hClosed : bond.ClosedForm) (hSupply : bond.supply.amount.toRat = 0) :
    (fresh bond).Sound 0 where
  closed := hClosed
  holds _ _ := by
    rw [Nat.cast_zero]
    exact toRat_zero
  signs := Coins.not_anyNegative_empty
  supply_nonneg := hSupply.ge

theorem Sound.withBalances (h : l.Sound N) {supply : Decimal} {f : String → Decimal} {M : Nat}
    (hSupply : 0 ≤ supply.toRat) (hf : ∀ denom ∈ l.bond.reserves, (f denom).toRat = M) :
    Sound { l.withSupply supply with balances := Coins.each l.bond.reserves h.closed.ascending f } M where
  closed := ⟨h.closed.family, h.closed.ascending, h.closed.nonempty⟩
  holds denom hd := by
    have hMem : denom ∈ l.bond.reserves := hd
    change ((Coins.each l.bond.reserves h.closed.ascending f).amountOf denom).toRat = M
    rw [Coins.amountOf_each _ hMem]
    exact hf denom hMem
  signs := by
    change ¬(Coins.each l.bond.reserves h.closed.ascending f).AnyNegative
    rw [Coins.anyNegative_each]
    rintro ⟨denom, hd, hNegative⟩
    rw [hf denom hd] at hNegative
    exact absurd (Nat.cast_nonneg M) (not_le.mpr hNegative)
  supply_nonneg := hSupply

/-- What a mint charges, in whole units. -/
def charge (difference : Decimal) : Nat :=
  if difference.toRat < 0 then 1 else ⌈difference.toRat⌉.toNat

theorem toRat_ceil_deposit_eq_charge {difference : Decimal} (h : IsAmount difference.toRat) :
    (Bond.deposit difference).ceilUnits.toRat = charge difference := by
  rw [Bond.toRat_ceil_deposit h]
  unfold charge
  split
  · rw [Nat.cast_one]
  · rename_i hDue
    have hCeil : 0 ≤ ⌈difference.toRat⌉ := Int.ceil_nonneg (not_lt.mp hDue)
    rw [← Int.cast_natCast, Int.toNat_of_nonneg hCeil]

theorem Sound.mint (h : l.Sound N) (hMint : (l.mint amount).outcome = .ok (l', paid)) :
    ∃ total target difference, 0 ≤ amount.toRat ∧ l.bond.supply.amount.add amount = .ok total ∧
      (l.bond.curveIntegral total).outcome = .ok target ∧
      RoundsSigned (target.toRat - N) difference.toRat ∧ l'.bond = (l.withSupply total).bond ∧
      l'.Sound (N + charge difference) ∧
      ∀ denom ∈ l.bond.reserves, (paid.amountOf denom).toRat = charge difference := by
  obtain ⟨hSigns, total, target, difference, f, hTotal, hTarget, hDifference, hMoves, rfl, hPaid⟩ :=
    mint_eq_ok h.closed hMint
  have hRounds := Bond.roundsSigned_charge (h.closed.commonBalance_eq h.holds) hDifference
  have hAmount := hRounds.isAmount ((Bond.curveIntegral_isAmount hTarget).sub (OnGrid.intCast _ N))
  have hCharge := toRat_ceil_deposit_eq_charge hAmount
  refine ⟨total, target, difference, hSigns.1, hTotal, hTarget, hRounds, rfl, ?_, ?_⟩
  · apply h.withBalances (Bond.add_nonneg_of_add hSigns.2.2 hSigns.1 hTotal)
    intro denom hd
    exact toRat_add_natCast (h.holds denom hd) hCharge (hMoves denom hd)
  · intro denom hd
    rw [hPaid denom hd, hCharge]

/-- What a redemption pays, in whole units. -/
def payment (difference : Decimal) : Nat := ⌊difference.toRat⌋.toNat

theorem toRat_truncate_eq_payment {difference : Decimal} (h : IsAmount difference.toRat)
    (hNonneg : 0 ≤ difference.toRat) :
    difference.quantize.truncateUnits.toRat = payment difference := by
  have hFloor : 0 ≤ ⌊difference.toRat⌋ := Int.floor_nonneg.mpr hNonneg
  rw [Bond.toRat_truncate_payout h hNonneg, payment, ← Int.cast_natCast, Int.toNat_of_nonneg hFloor]

theorem payment_le {remaining difference : Decimal} (hRemaining : 0 ≤ remaining.toRat)
    (hFits : N < 2 ^ 96)
    (hRounds : RoundsSigned ((N : ℚ) - remaining.toRat) difference.toRat) : payment difference ≤ N := by
  have hDifference := hRounds.ge_of_exact (exact_natCast hFits) (by linarith)
  have hFloor : ⌊difference.toRat⌋ ≤ (N : ℤ) := by
    have := (Int.floor_le difference.toRat).trans hDifference
    exact_mod_cast this
  unfold payment
  omega

theorem Sound.redeem (h : l.Sound N) (hRedeem : (l.redeem amount).outcome = .ok (l', returns)) :
    ∃ rest remaining difference, 0 ≤ amount.toRat ∧ amount.toRat ≤ l.bond.supply.amount.toRat ∧
      l.bond.supply.amount.sub amount = .ok rest ∧
      (l.bond.curveIntegral rest).outcome = .ok remaining ∧ remaining.toRat ≤ N ∧
      (l.bond.commonBalance l.balances).sub remaining = .ok difference ∧
      RoundsSigned (N - remaining.toRat) difference.toRat ∧
      payment difference ≤ N ∧
      l'.bond = (l.withSupply rest).bond ∧ l'.Sound (N - payment difference) ∧
      ∀ denom ∈ l.bond.reserves, (returns.amountOf denom).toRat = payment difference := by
  obtain ⟨_, hSigns, hLe, rest, remaining, difference, f, hRest, hRemaining, hEnough, hDifference,
    hMoves, rfl, rfl⟩ := (redeem_eq_ok_iff h.closed).mp hRedeem
  have hCommon := h.closed.commonBalance_eq h.holds
  have hRounds := Bond.roundsSigned_payout hCommon hDifference
  rw [hCommon] at hEnough
  have hAmount := hRounds.isAmount ((OnGrid.intCast _ N).sub (Bond.curveIntegral_isAmount hRemaining))
  have hNonneg := hRounds.nonneg (sub_nonneg.mpr hEnough)
  have hPayment := toRat_truncate_eq_payment hAmount hNonneg
  have hWithin := payment_le (Bond.curveIntegral_nonneg hRemaining)
    (lt_of_toRat_eq_natCast hCommon) hRounds
  refine ⟨rest, remaining, difference, hSigns.1, hLe, hRest, hRemaining, hEnough, hDifference, hRounds,
    hWithin, rfl, ?_, ?_⟩
  · apply h.withBalances (Bond.sub_nonneg_of_sub hLe hRest)
    intro denom hd
    obtain ⟨z, hz, hValue⟩ := exists_sub_natCast (h.holds denom hd) hPayment hWithin
    have hMove := hMoves denom hd
    rw [hz] at hMove
    cases hMove
    exact hValue
  · intro denom hd
    rw [Bond.amountOf_roundDown_each h.closed.ascending hd, hPayment]

end Ledger

end BondingCurve
