import BondingCurve.Proofs.Ledger.Solvency

/-!
# How far the reserve can exceed the curve

A mint at its price and a redemption leave less than one unit above the integral. A mint that meets
a reserve above its integral is charged the minimum price, and adds at most one unit to the excess.
Whoever buys and sells back at once gets whole units of the excess on top of what he paid, so he
gains at most one unit for every mint at the minimum price since the last other order.
-/

namespace BondingCurve

open Logged Decimal

namespace Ledger

variable {l l' l₁ l₂ : Ledger} {bond : Bond} {amount target remaining difference : Decimal}
variable {paid returned : Coins} {N j : Nat} {v : ℚ}

theorem charge_lt_add_one (hRounds : RoundsSigned v difference.toRat) (hv : 0 ≤ v) :
    (charge difference : ℚ) < v + 1 := by
  have hNonneg := hRounds.nonneg hv
  have hCharge : ((charge difference : Nat) : ℤ) = ⌈difference.toRat⌉ := by
    unfold charge
    rw [if_neg (not_lt.mpr hNonneg)]
    exact Int.toNat_of_nonneg (Int.ceil_nonneg hNonneg)
  have hCeil : (⌈difference.toRat⌉ : ℚ) ≤ ⌈v⌉ := by
    exact_mod_cast Int.ceil_le.mpr (hRounds.le_ceil hv)
  have hAbove := Int.ceil_lt_add_one v
  rw [← hCharge, Int.cast_natCast] at hCeil
  linarith

theorem charge_le_one (hRounds : RoundsSigned v difference.toRat) (hv : v < 0) :
    charge difference ≤ 1 := by
  have hDifference := hRounds.ge_of_exact ⟨0, toRat_zero⟩ hv.le
  unfold charge
  split
  · exact le_rfl
  · have hCeil : ⌈difference.toRat⌉ ≤ 0 := Int.ceil_le.mpr (by exact_mod_cast hDifference)
    omega

theorem lt_payment_add_one (hRounds : RoundsSigned v difference.toRat) (hv : 0 ≤ v) :
    v < payment difference + 1 := by
  have hPayment : ((payment difference : Nat) : ℤ) = ⌊difference.toRat⌋ :=
    Int.toNat_of_nonneg (Int.floor_nonneg.mpr (hRounds.nonneg hv))
  have hFloor : (⌊v⌋ : ℚ) ≤ ⌊difference.toRat⌋ := by
    exact_mod_cast Int.le_floor.mpr (hRounds.floor_le hv)
  have hBelow := Int.lt_floor_add_one v
  rw [← hPayment, Int.cast_natCast] at hFloor
  linarith

/-- A payment that is not rounded up to a whole number is the whole part of the exact difference. -/
theorem payment_eq_floor (hRounds : RoundsSigned v difference.toRat) (hv : 0 ≤ v)
    (hPayout : ¬(difference.IsInteger ∧ v < difference.toRat)) : (payment difference : ℤ) = ⌊v⌋ := by
  have hNonneg := hRounds.nonneg hv
  have hPayment : ((payment difference : Nat) : ℤ) = ⌊difference.toRat⌋ :=
    Int.toNat_of_nonneg (Int.floor_nonneg.mpr hNonneg)
  rw [isInteger_iff_floor hNonneg, ← hRounds.floor_le_iff hv] at hPayout
  rw [hPayment]
  exact le_antisymm (Int.le_floor.mpr hPayout) (Int.le_floor.mpr (hRounds.floor_le hv))

/-- The reserve before an order exceeds the integral at the supply after it. -/
def Exceeds (l l' : Ledger) : Prop :=
  ∃ target, (l.bond.curveIntegral l'.bond.supply.amount).outcome = .ok target ∧
    target.toRat < (l.bond.commonBalance l.balances).toRat

/-- Ledgers that orders lead to from nothing, each filled, with the number of mints at the minimum
price since the last other order. -/
inductive Reached (bond : Bond) : Ledger → Nat → Prop
  | start : Reached bond (fresh bond) 0
  | mintAtPrice {l l' : Ledger} {amount : Decimal} {paid : Coins} {j : Nat} (h : Reached bond l j)
      (hMint : (l.mint amount).outcome = .ok (l', paid)) (hPrice : ¬l.Exceeds l') : Reached bond l' 0
  | mintAtMinimum {l l' : Ledger} {amount : Decimal} {paid : Coins} {j : Nat} (h : Reached bond l j)
      (hMint : (l.mint amount).outcome = .ok (l', paid)) (hMinimum : l.Exceeds l') :
      Reached bond l' (j + 1)
  | redeemed {l l' : Ledger} {amount : Decimal} {returned : Coins} {j : Nat} (h : Reached bond l j)
      (hRedeem : (l.redeem amount).outcome = .ok (l', returned)) : Reached bond l' 0

theorem Reached.after (h : Reached bond l j) (order : Order) : ∃ i, Reached bond (l.after order) i := by
  rcases after_cases l order with hSame | ⟨receipt, hFill⟩
  · exact ⟨j, hSame.symm ▸ h⟩
  cases order with
  | buy amount =>
    by_cases hExcess : l.Exceeds (l.after (.buy amount))
    · exact ⟨_, h.mintAtMinimum hFill hExcess⟩
    · exact ⟨_, h.mintAtPrice hFill hExcess⟩
  | sell amount => exact ⟨_, h.redeemed hFill⟩

theorem reached_run (bond : Bond) (orders : List Order) :
    ∃ j, Reached bond ((fresh bond).run orders) j := by
  induction orders using List.reverseRecOn with
  | nil => exact ⟨0, .start⟩
  | append_singleton past order ih =>
    obtain ⟨j, h⟩ := ih
    rw [run_append_singleton]
    exact h.after order

/-- A sound ledger whose reserve exceeds the integral by less than one unit and `j` more. -/
structure Tight (bond : Bond) (l : Ledger) (N j : Nat) : Prop where
  terms : l.KeepsTerms bond
  sound : l.Sound N
  excess : ∀ integral, (l.bond.curveIntegral l.bond.supply.amount).outcome = .ok integral →
    N - integral.toRat < 1 + j

theorem Tight.mintAtPrice (h : Tight bond l N j) (hMint : (l.mint amount).outcome = .ok (l', paid))
    (hPrice : ¬l.Exceeds l') : ∃ M, Tight bond l' M 0 := by
  obtain ⟨total, target, difference, _, _, hTarget, hRounds, hBond, hSound, _⟩ := h.sound.mint hMint
  refine ⟨_, h.terms.of_withSupply hBond, hSound, fun integral hIntegral => ?_⟩
  have hDue : N ≤ target.toRat := by
    by_contra hExcess
    apply hPrice
    refine ⟨target, ?_, ?_⟩
    · rw [hBond]
      exact hTarget
    · rw [h.sound.closed.commonBalance_eq h.sound.holds]
      exact not_le.mp hExcess
  rw [hBond] at hIntegral
  cases hIntegral.symm.trans hTarget
  have hCharge := charge_lt_add_one hRounds (sub_nonneg.mpr hDue)
  push_cast
  linarith

theorem Tight.mintAtMinimum (h : Tight bond l N j) (hPower : l.bond.family = .power)
    (hMint : (l.mint amount).outcome = .ok (l', paid)) (hMinimum : l.Exceeds l') :
    ∃ M, Tight bond l' M (j + 1) := by
  obtain ⟨total, target, difference, hAmount, hTotal, hTarget, hRounds, hBond, hSound, _⟩ :=
    h.sound.mint hMint
  refine ⟨_, h.terms.of_withSupply hBond, hSound, fun integral hIntegral => ?_⟩
  rw [hBond] at hIntegral
  cases hIntegral.symm.trans hTarget
  have hExcess : target.toRat < N := by
    obtain ⟨target', hTarget', hLess⟩ := hMinimum
    rw [hBond] at hTarget'
    cases hTarget'.symm.trans hTarget
    rwa [h.sound.closed.commonBalance_eq h.sound.holds] at hLess
  -- the integral only grows, so the excess grows by the charge at most
  obtain ⟨integral, hIntegral, hGrows⟩ :=
    h.sound.closed.curveIntegral_add hPower h.sound.supply_nonneg hAmount hTotal hTarget
  have hBefore := h.excess integral hIntegral
  have hCharge : (charge difference : ℚ) ≤ 1 := by
    exact_mod_cast charge_le_one hRounds (sub_neg.mpr hExcess)
  push_cast
  linarith

theorem Tight.redeem (h : Tight bond l N j) (hRedeem : (l.redeem amount).outcome = .ok (l', returned)) :
    ∃ M, Tight bond l' M 0 := by
  obtain ⟨rest, remaining, difference, _, _, _, hRemaining, hLe, _, hRounds, hWithin, hBond, hSound, _⟩ :=
    h.sound.redeem hRedeem
  refine ⟨_, h.terms.of_withSupply hBond, hSound, fun integral hIntegral => ?_⟩
  rw [hBond] at hIntegral
  cases hIntegral.symm.trans hRemaining
  have hPayment := lt_payment_add_one hRounds (sub_nonneg.mpr hLe)
  rw [Nat.cast_sub hWithin]
  push_cast
  linarith

theorem Reached.tight (hClosed : bond.ClosedForm) (hPower : bond.family = .power)
    (hSupply : bond.supply.amount.toRat = 0) (h : Reached bond l j) : ∃ N, Tight bond l N j := by
  induction h with
  | start =>
    refine ⟨0, keepsTerms_fresh bond, sound_fresh hClosed hSupply, fun integral hIntegral => ?_⟩
    have := Bond.curveIntegral_nonneg hIntegral
    push_cast
    linarith
  | mintAtPrice _ hMint hPrice ih =>
    obtain ⟨N, hTight⟩ := ih
    exact hTight.mintAtPrice hMint hPrice
  | mintAtMinimum _ hMint hMinimum ih =>
    obtain ⟨N, hTight⟩ := ih
    obtain ⟨_, hTerms⟩ := hTight.terms
    exact hTight.mintAtMinimum (by rw [hTerms]; exact hPower) hMint hMinimum
  | redeemed _ hRedeem ih =>
    obtain ⟨N, hTight⟩ := ih
    exact hTight.redeem hRedeem

/-- What a redemption is paid from rounds up to a whole number. -/
def PayoutRoundsUp (l l' : Ledger) : Prop :=
  ∃ remaining difference, (l.bond.curveIntegral l'.bond.supply.amount).outcome = .ok remaining ∧
    (l.bond.commonBalance l.balances).sub remaining = .ok difference ∧ difference.IsInteger ∧
    (l.bond.commonBalance l.balances).toRat - remaining.toRat < difference.toRat

theorem Sound.not_payoutRoundsUp (h : l.Sound N) (hSmall : l.Small)
    (hRedeem : (l.redeem amount).outcome = .ok (l', returned)) : ¬l.PayoutRoundsUp l' := by
  obtain ⟨rest, remaining, difference, _, _, _, hRemaining, hLe, hDifference, hRounds, _, hBond, _⟩ :=
    h.redeem hRedeem
  rintro ⟨remaining', difference', hRemaining', hDifference', _, hUp⟩
  rw [hBond] at hRemaining'
  cases hRemaining'.symm.trans hRemaining
  cases hDifference'.symm.trans hDifference
  rw [h.closed.commonBalance_eq h.holds, hRounds.eq_of_exact (payout_exact
    (Bond.curveIntegral_nonneg hRemaining) (Bond.curveIntegral_isAmount hRemaining) hLe
    (h.lt_of_small hSmall))] at hUp
  exact lt_irrefl _ hUp

theorem Sound.redeem_mint (h : l.Sound N) (hMint : (l.mint amount).outcome = .ok (l₁, paid))
    (hTotal : l₁.bond.supply.amount.toRat = l.bond.supply.amount.toRat + amount.toRat)
    (hRedeem : (l₁.redeem amount).outcome = .ok (l₂, returned)) (hPayout : ¬l₁.PayoutRoundsUp l₂) :
    ∃ remaining, (l.bond.curveIntegral l₂.bond.supply.amount).outcome = .ok remaining ∧
      l₂.bond.supply.amount.toRat = l.bond.supply.amount.toRat ∧
      ∀ denom ∈ l.bond.reserves, (returned.amountOf denom).toRat =
        (paid.amountOf denom).toRat + ⌊N - remaining.toRat⌋ := by
  obtain ⟨total, _, due, _, _, _, _, hBond, hSound, hPaid⟩ := h.mint hMint
  obtain ⟨rest, remaining, difference, _, _, hRest, hRemaining, hLe, hDifference, hRounds, _, hBond', _,
    hReturned⟩ := hSound.redeem hRedeem
  have hAfter : l₂.bond.supply.amount = rest := by
    rw [hBond']
    rfl
  have hWhole : ¬(difference.IsInteger ∧
      (N + charge due : Nat) - remaining.toRat < difference.toRat) := by
    rintro ⟨hInteger, hUp⟩
    refine hPayout ⟨remaining, difference, hAfter ▸ hRemaining, hDifference, hInteger, ?_⟩
    rwa [hSound.closed.commonBalance_eq hSound.holds]
  have hPayment := payment_eq_floor hRounds (sub_nonneg.mpr hLe) hWhole
  have hSum : (payment difference : ℚ) = charge due + ⌊N - remaining.toRat⌋ := by
    have hShift : ((N + charge due : Nat) : ℚ) - remaining.toRat =
        N - remaining.toRat + (charge due : ℤ) := by
      push_cast
      ring
    rw [hShift, Int.floor_add_intCast] at hPayment
    rw [← Int.cast_natCast, hPayment]
    push_cast
    ring
  refine ⟨remaining, ?_, ?_, fun denom hd => ?_⟩
  · rw [hAfter]
    rw [hBond] at hRemaining
    exact hRemaining
  · have hRestRounds := (computes_sub? _ _).rounds (checked_eq_ok_iff.mp hRest)
    rw [hTotal, add_sub_cancel_right] at hRestRounds
    rw [hAfter]
    exact hRestRounds.eq_of_exact l.bond.supply.amount.exact_toRat
  · have hMem : denom ∈ l₁.bond.reserves := by
      rw [hBond]
      exact hd
    rw [hReturned denom hMem, hPaid denom hd, hSum]

/-- What is sold back at once returns what was paid and the whole part of the excess over the
integral. Where the integral is again what it was before, that is at most one unit more for every
mint at the minimum price since the last other order. -/
theorem returned_le_paid_add {policy : Policy} (hPower : bond.family = .power)
    (hValid : (bond.validate policy).outcome = .ok ()) (hSupply : bond.supply.amount.toRat = 0)
    (h : Reached bond l j) (hMint : (l.mint amount).outcome = .ok (l₁, paid))
    (hTotal : l₁.bond.supply.amount.toRat = l.bond.supply.amount.toRat + amount.toRat)
    (hRedeem : (l₁.redeem amount).outcome = .ok (l₂, returned)) (hPayout : ¬l₁.PayoutRoundsUp l₂) :
    ∃ (N : Nat) (remaining : Decimal), l.bond.Holds l.balances N ∧
      (l.bond.curveIntegral l₂.bond.supply.amount).outcome = .ok remaining ∧
      ∀ denom ∈ l.bond.reserves,
        (returned.amountOf denom).toRat = (paid.amountOf denom).toRat + ⌊N - remaining.toRat⌋ ∧
        ((∀ e, bond.IntegralExponent e → e < 1024) ∨ l₂.bond.supply.amount = l.bond.supply.amount →
          (returned.amountOf denom).toRat ≤ (paid.amountOf denom).toRat + j) := by
  obtain ⟨N, hTight⟩ := h.tight (Bond.closedForm_of_validate (.inl hPower) hValid) hPower hSupply
  obtain ⟨remaining, hRemaining, hSame, hReturned⟩ :=
    hTight.sound.redeem_mint hMint hTotal hRedeem hPayout
  refine ⟨N, remaining, hTight.sound.holds, hRemaining, fun denom hd => ⟨hReturned denom hd, ?_⟩⟩
  intro hWritten
  obtain ⟨integral, hIntegral, hValue⟩ : ∃ integral,
      (l.bond.curveIntegral l.bond.supply.amount).outcome = .ok integral ∧
        integral.toRat = remaining.toRat := by
    rcases hWritten with hSmall | hWritten
    · obtain ⟨supply, hTerms⟩ := hTight.terms
      obtain ⟨e, he⟩ := Bond.exists_exponent (by rw [hTerms]; exact hPower) hRemaining
      refine hTight.sound.closed.curveIntegral_congr he (hSmall e ?_) hSame hRemaining
      rw [hTerms] at he
      exact he
    · exact ⟨remaining, hWritten ▸ hRemaining, rfl⟩
  have hExcess := hTight.excess integral hIntegral
  rw [hValue] at hExcess
  have hFloor : ⌊N - remaining.toRat⌋ ≤ (j : ℤ) := by
    have : ⌊N - remaining.toRat⌋ < (1 + j : ℤ) := Int.floor_lt.mpr (by push_cast; exact hExcess)
    omega
  have hFloorRat : (⌊N - remaining.toRat⌋ : ℚ) ≤ j := by exact_mod_cast hFloor
  rw [hReturned denom hd]
  linarith

def tenthPriced : Bond := .powerBond 0 1 (.scaled 1 1)

def tenthPricedAtMinimum : Ledger := (fresh tenthPriced).run [.buy (.units 5), .buy (.units 2)]

theorem reached_tenthPricedAtMinimum : Reached tenthPriced tenthPricedAtMinimum 1 := by
  have hFirst : ((fresh tenthPriced).mint (.units 5)).outcome =
      .ok ((fresh tenthPriced).after (.buy (.units 5)), .single "res" (.units 1)) := by decide +kernel
  have hSecond : (((fresh tenthPriced).after (.buy (.units 5))).mint (.units 2)).outcome =
      .ok (tenthPricedAtMinimum, .single "res" (.units 1)) := by decide +kernel
  have hPrice : ¬(fresh tenthPriced).Exceeds ((fresh tenthPriced).after (.buy (.units 5))) := by
    rintro ⟨target, hTarget, hLess⟩
    have hNonneg := Bond.curveIntegral_nonneg hTarget
    have hEmpty : ((fresh tenthPriced).bond.commonBalance (fresh tenthPriced).balances).toRat = 0 := by
      decide +kernel
    linarith
  have hMinimum : ((fresh tenthPriced).after (.buy (.units 5))).Exceeds tenthPricedAtMinimum :=
    ⟨.scaled 7 1, by decide +kernel, by decide +kernel⟩
  exact (Reached.start.mintAtPrice hFirst hPrice).mintAtMinimum hSecond hMinimum

theorem returned_le_paid_add_tenthPriced :
    (tenthPriced.validate .strict).outcome = .ok () ∧ tenthPriced.supply.amount.toRat = 0 ∧
    ∃ l₁ l₂ paid returned, (tenthPricedAtMinimum.mint (.units 18)).outcome = .ok (l₁, paid) ∧
      (l₁.redeem (.units 18)).outcome = .ok (l₂, returned) ∧ ¬l₁.PayoutRoundsUp l₂ ∧
      (returned.amountOf "res").toRat = 2 ∧
      (returned.amountOf "res").toRat ≤ (paid.amountOf "res").toRat + (1 : Nat) := by
  have hValid : (tenthPriced.validate .strict).outcome = .ok () := by decide +kernel
  have hMint : (tenthPricedAtMinimum.mint (.units 18)).outcome =
      .ok (tenthPricedAtMinimum.after (.buy (.units 18)), .single "res" (.units 1)) := by decide +kernel
  have hRedeem : ((tenthPricedAtMinimum.after (.buy (.units 18))).redeem (.units 18)).outcome =
      .ok ((tenthPricedAtMinimum.after (.buy (.units 18))).after (.sell (.units 18)),
        .single "res" (.units 2)) := by decide +kernel
  have hPayout : ¬(tenthPricedAtMinimum.after (.buy (.units 18))).PayoutRoundsUp
      ((tenthPricedAtMinimum.after (.buy (.units 18))).after (.sell (.units 18))) := by
    obtain ⟨i, hReached⟩ := reached_tenthPricedAtMinimum.after (.buy (.units 18))
    obtain ⟨N, hTight⟩ := hReached.tight (Bond.closedForm_of_validate (.inl rfl) hValid) rfl toRat_zero
    refine hTight.sound.not_payoutRoundsUp ?_ hRedeem
    unfold Small
    decide +kernel
  obtain ⟨_, _, _, _, hReturned⟩ := returned_le_paid_add rfl hValid toRat_zero reached_tenthPricedAtMinimum
    hMint (by decide +kernel) hRedeem hPayout
  exact ⟨hValid, toRat_zero, _, _, _, _, hMint, hRedeem, hPayout, by decide +kernel,
    (hReturned "res" (by decide +kernel)).2 (.inr (by decide +kernel))⟩

/-- Selling back at once what was bought returns more than was paid. -/
structure Gainful (bond : Bond) (l : Ledger) (amount : Decimal) : Prop where
  power : bond.family = .power
  valid : (bond.validate .strict).outcome = .ok ()
  unsold : bond.supply.amount.toRat = 0
  reached : ∃ j, Reached bond l j
  gain : ∃ l₁ l₂ paid returned, (l.mint amount).outcome = .ok (l₁, paid) ∧
    l₁.bond.supply.amount.toRat = l.bond.supply.amount.toRat + amount.toRat ∧
    (l₁.redeem amount).outcome = .ok (l₂, returned) ∧
    ∃ denom ∈ l.bond.reserves, (paid.amountOf denom).toRat < (returned.amountOf denom).toRat

/-- The integral of this bond at `steepSupply` is just above a whole number, and whole once the
supply is written with twelve places. -/
def steep : Bond :=
  .powerBond (.units 10485770000000000) (.units 1048576) (.scaled 87364217978393277 17)

def steepSupply : Decimal := .scaled 10000014686 10

def steepBought : Ledger := (fresh steep).run [.buy steepSupply]

def pico : Decimal := .scaled 1 12

def doublePriced : Bond := .powerBond 0 1 (.units 2)

def doublePricedBought : Ledger :=
  (fresh doublePriced).run [.buy (.scaled 1 amountPlaces)]

/-- Gains after a mint at the minimum price, where the supply comes back written otherwise, and where
the payout is rounded up. -/
theorem gainful_of_minimum_writing_rounding :
    Gainful tenthPriced tenthPricedAtMinimum (.units 18) ∧ Gainful steep steepBought pico ∧
      Gainful doublePriced doublePricedBought (.units 50000000000) := by
  refine ⟨⟨rfl, by decide +kernel, toRat_zero, ⟨1, reached_tenthPricedAtMinimum⟩, ?_⟩,
    ⟨rfl, by decide +kernel, toRat_zero, reached_run _ _, ?_⟩,
    ⟨rfl, by decide +kernel, toRat_zero, reached_run _ _, ?_⟩⟩
  · exact ⟨tenthPricedAtMinimum.after (.buy (.units 18)),
      (tenthPricedAtMinimum.after (.buy (.units 18))).after (.sell (.units 18)),
      .single "res" (.units 1), .single "res" (.units 2), by decide +kernel, by decide +kernel,
      by decide +kernel, "res", by decide +kernel, by decide +kernel⟩
  · exact ⟨steepBought.after (.buy pico), (steepBought.after (.buy pico)).after (.sell pico),
      .single "res" (.units 48908), .single "res" (.units 48909), by decide +kernel, by decide +kernel,
      by decide +kernel, "res", by decide +kernel, by decide +kernel⟩
  · exact ⟨doublePricedBought.after (.buy (.units 50000000000)),
      (doublePricedBought.after (.buy (.units 50000000000))).after (.sell (.units 50000000000)),
      .single "res" (.units 99999999999), .single "res" (.units 100000000000), by decide +kernel,
      by decide +kernel, by decide +kernel, "res", by decide +kernel, by decide +kernel⟩

end Ledger

end BondingCurve
