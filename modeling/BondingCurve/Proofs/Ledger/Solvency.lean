import BondingCurve.Proofs.Ledger.Steps

/-!
# The reserve stays above the curve

Along a run of mints and redemptions from an empty ledger all reserve tokens hold one whole amount,
and while balances are small enough for eighteen places to be exact, that amount is at least the
integral at the current supply. A power bond can then be redeemed at any time, up to the whole supply.
-/

namespace BondingCurve

open Logged Decimal

namespace Ledger

variable {l l' : Ledger} {bond : Bond} {amount : Decimal} {paid returns : Coins} {N : Nat}

/-- Balances below this leave every difference of eighteen places exact. -/
def safeBalance : Nat := 7 * 10 ^ 10

theorem safeBalance_lt_exactBound : (safeBalance : ℚ) < exactBound := by
  unfold safeBalance exactBound amountPlaces
  norm_num

section Amounts

variable {target remaining difference : Decimal}

/-- A charge of ordinary size is taken of the exact difference. -/
theorem charge_exact (hTarget : 0 ≤ target.toRat) (hAmount : IsAmount target.toRat)
    (hRounds : RoundsSigned (target.toRat - N) difference.toRat)
    (hSmall : N + charge difference < safeBalance) : difference.toRat = target.toRat - N := by
  have hBound := safeBalance_lt_exactBound
  have hN : (N : ℚ) < safeBalance := by exact_mod_cast (Nat.le_add_right _ _).trans_lt hSmall
  -- a difference beyond the bound would have been charged in full
  have hUpper : target.toRat - N < safeBalance := by
    by_contra hLarge
    have hDifference := hRounds.le_of_exact (exact_natCast (by decide : safeBalance < 2 ^ 96))
      (not_lt.mp hLarge)
    have hCeil : (safeBalance : ℤ) ≤ ⌈difference.toRat⌉ := by
      have := hDifference.trans (Int.le_ceil difference.toRat)
      exact_mod_cast this
    have hDue : ¬difference.toRat < 0 := not_lt.mpr ((Nat.cast_nonneg safeBalance).trans hDifference)
    unfold charge at hSmall
    rw [if_neg hDue] at hSmall
    omega
  have hExact := exact_of_isAmount (hAmount.sub (OnGrid.intCast _ N))
    (abs_lt.mpr ⟨by push_cast; linarith, by push_cast; linarith⟩)
  exact hRounds.eq_of_exact (by simpa using hExact)

theorem le_add_charge (hValue : difference.toRat = target.toRat - N) :
    target.toRat ≤ (N + charge difference : Nat) := by
  unfold charge
  rw [hValue]
  split
  · push_cast
    linarith
  · rename_i hDue
    have hCeil : ((⌈target.toRat - N⌉.toNat : Nat) : ℤ) = ⌈target.toRat - N⌉ :=
      Int.toNat_of_nonneg (Int.ceil_nonneg (not_lt.mp hDue))
    have hCovers := Int.le_ceil (target.toRat - N)
    rw [← hCeil, Int.cast_natCast] at hCovers
    push_cast
    linarith

theorem payout_exact (hRemaining : 0 ≤ remaining.toRat) (hAmount : IsAmount remaining.toRat)
    (hLe : remaining.toRat ≤ N) (hSmall : N < safeBalance) : Exact (N - remaining.toRat) := by
  have hBound := safeBalance_lt_exactBound
  have hN : (N : ℚ) < safeBalance := by exact_mod_cast hSmall
  have hGrid := (OnGrid.intCast amountPlaces N).sub hAmount
  rw [Int.cast_natCast] at hGrid
  exact exact_of_isAmount hGrid (abs_lt.mpr ⟨by linarith, by linarith⟩)

theorem le_sub_payment (hRemaining : 0 ≤ remaining.toRat) (hAmount : IsAmount remaining.toRat)
    (hLe : remaining.toRat ≤ N) (hRounds : RoundsSigned (N - remaining.toRat) difference.toRat)
    (hSmall : N < safeBalance) (hWithin : payment difference ≤ N) :
    remaining.toRat ≤ (N - payment difference : Nat) := by
  have hValue := hRounds.eq_of_exact (payout_exact hRemaining hAmount hLe hSmall)
  have hFloor : ((payment difference : Nat) : ℚ) ≤ N - remaining.toRat := by
    unfold payment
    rw [hValue, ← Int.cast_natCast, Int.toNat_of_nonneg (Int.floor_nonneg.mpr (sub_nonneg.mpr hLe))]
    exact Int.floor_le _
  rw [Nat.cast_sub hWithin]
  linarith

end Amounts

/-- The integral at the current supply exists and is covered. -/
def Backed (l : Ledger) (N : Nat) : Prop :=
  ∃ integral, (l.bond.curveIntegral l.bond.supply.amount).outcome = .ok integral ∧ integral.toRat ≤ N

/-- What holds along a run of small balances: nothing but the supply of the bond changes, all
reserve tokens hold one whole amount, and it covers the integral once an order has been filled. -/
structure Solvent (bond : Bond) (l : Ledger) (N : Nat) : Prop where
  terms : l.KeepsTerms bond
  sound : l.Sound N
  backed : l = fresh bond ∨ l.Backed N

def Small (l : Ledger) : Prop :=
  ∀ denom ∈ l.bond.reserves, (l.balances.amountOf denom).toRat < safeBalance

theorem Sound.lt_of_small (h : l.Sound N) (hSmall : l.Small) : N < safeBalance := by
  obtain ⟨denom, hd⟩ := List.exists_mem_of_ne_nil _ h.closed.nonempty
  have := hSmall denom hd
  rw [h.holds denom hd] at this
  exact_mod_cast this

theorem solvent_fresh (hClosed : bond.ClosedForm) (hSupply : bond.supply.amount.toRat = 0) :
    Solvent bond (fresh bond) 0 where
  terms := keepsTerms_fresh bond
  sound := sound_fresh hClosed hSupply
  backed := .inl rfl

theorem Solvent.after (h : Solvent bond l N) (hSmall : l.Small) (order : Order)
    (hNext : (l.after order).Small) : ∃ M, Solvent bond (l.after order) M := by
  rcases after_cases l order with hSame | ⟨receipt, hFill⟩
  · exact ⟨N, by rw [hSame]; exact h⟩
  generalize l.after order = l' at hNext hFill
  cases order with
  | buy amount =>
    obtain ⟨total, target, difference, _, _, hTarget, hRounds, hBond, hSound, _⟩ := h.sound.mint hFill
    refine ⟨_, h.terms.of_withSupply hBond, hSound, .inr ⟨target, ?_, ?_⟩⟩
    · rw [hBond]
      exact hTarget
    · exact le_add_charge (charge_exact (Bond.curveIntegral_nonneg hTarget)
        (Bond.curveIntegral_isAmount hTarget) hRounds (hSound.lt_of_small hNext))
  | sell amount =>
    obtain ⟨rest, remaining, difference, _, _, _, hRemaining, hLe, _, hRounds, hWithin, hBond, hSound, _⟩ :=
      h.sound.redeem hFill
    refine ⟨_, h.terms.of_withSupply hBond, hSound, .inr ⟨remaining, ?_, ?_⟩⟩
    · rw [hBond]
      exact hRemaining
    · exact le_sub_payment (Bond.curveIntegral_nonneg hRemaining) (Bond.curveIntegral_isAmount hRemaining)
        hLe hRounds (h.sound.lt_of_small hSmall) hWithin

theorem solvent_run (hClosed : bond.ClosedForm) (hSupply : bond.supply.amount.toRat = 0)
    {orders : List Order} (hSmall : ∀ past, past <+: orders → ((fresh bond).run past).Small) :
    ∃ N, Solvent bond ((fresh bond).run orders) N := by
  induction orders using List.reverseRecOn with
  | nil => exact ⟨0, solvent_fresh hClosed hSupply⟩
  | append_singleton past order ih =>
    have hPast : past <+: past ++ [order] := List.prefix_append _ _
    obtain ⟨N, hN⟩ := ih fun earlier hEarlier => hSmall earlier (hEarlier.trans hPast)
    have hNext := hSmall _ (List.prefix_refl _)
    rw [run_append_singleton] at hNext ⊢
    exact hN.after (hSmall past hPast) order hNext

theorem Sound.checkBalances (h : l.Sound N) :
    (l.bond.checkBalances l.balances .strict).outcome = .ok () := by
  have hUniform : l.bond.Uniform l.balances := by
    intro _ denom hd
    rw [equiv_iff_toRat_eq, h.holds denom hd, h.closed.commonBalance_eq h.holds]
  unfold Bond.checkBalances
  rw [if_pos hUniform, outcome_bind_eq_ok_iff]
  exact ⟨(), refuseIf_eq_ok_iff.mpr h.signs, rfl⟩

theorem Solvent.backed_of_pos (h : Solvent bond l N) (hFresh : bond.supply.amount.toRat = 0)
    (hPos : 0 < l.bond.supply.amount.toRat) : l.Backed N := by
  refine h.backed.resolve_left ?_
  rintro rfl
  exact absurd hPos (not_lt.mpr hFresh.le)

/-- A covered power bond takes back any amount up to its supply. -/
theorem Sound.exists_redeem (h : l.Sound N) (hBacked : l.Backed N) (hPower : l.bond.family = .power)
    (hAllowed : l.bond.allowSells = true) (hSmall : N < safeBalance) (hAmount : 0 ≤ amount.toRat)
    (hLe : amount.toRat ≤ l.bond.supply.amount.toRat) :
    ∃ l' returns, (l.redeem amount).outcome = .ok (l', returns) := by
  obtain ⟨integral, hIntegral, hCovered⟩ := hBacked
  have hCommon := h.closed.commonBalance_eq h.holds
  obtain ⟨rest, hRest⟩ : ∃ rest, l.bond.supply.amount.sub? amount = some rest := by
    refine (computes_sub? _ _).exists_of_abs_le_exact l.bond.supply.amount.exact_toRat ?_
    rw [abs_of_nonneg (sub_nonneg.mpr hLe), abs_of_nonneg h.supply_nonneg]
    linarith
  replace hRest : l.bond.supply.amount.sub amount = .ok rest := checked_eq_ok_iff.mpr hRest
  obtain ⟨remaining, hRemaining, hFalls⟩ :=
    h.closed.curveIntegral_sub hPower hAmount hLe hRest hIntegral
  have hNonneg := Bond.curveIntegral_nonneg hRemaining
  have hEnough : remaining.toRat ≤ N := hFalls.trans hCovered
  have hExact := payout_exact hNonneg (Bond.curveIntegral_isAmount hRemaining) hEnough hSmall
  have hComputes := computes_sub? (l.bond.commonBalance l.balances) remaining
  rw [hCommon] at hComputes
  obtain ⟨difference, hDifference, hValue⟩ := hComputes.eq_of_exact hExact
  have hGrid : IsAmount difference.toRat := by
    have := (OnGrid.intCast amountPlaces N).sub (Bond.curveIntegral_isAmount hRemaining)
    rwa [Int.cast_natCast, ← hValue] at this
  have hPayment := toRat_truncate_eq_payment hGrid (hValue ▸ sub_nonneg.mpr hEnough)
  have hWithin := payment_le hNonneg (lt_of_toRat_eq_natCast hCommon) (hComputes.rounds hDifference)
  refine ⟨_, _, (redeem_eq_ok_iff h.closed).mpr ⟨hAllowed, ⟨hAmount, h.signs, h.supply_nonneg⟩, hLe, rest,
    remaining, difference, fun denom =>
      ((l.balances.amountOf denom).sub difference.quantize.truncateUnits).toOption.getD 0,
    hRest, hRemaining, hCommon ▸ hEnough, checked_eq_ok_iff.mpr hDifference, ?_, rfl, rfl⟩⟩
  intro denom hd
  obtain ⟨z, hz, _⟩ := exists_sub_natCast (h.holds denom hd) hPayment hWithin
  dsimp only
  rw [hz]
  rfl

theorem Sound.redeem_all (h : l.Sound N) (hAll : amount.toRat = l.bond.supply.amount.toRat)
    (hRedeem : (l.redeem amount).outcome = .ok (l', returns)) :
    l'.bond.supply.amount.toRat = 0 ∧ l'.Sound 0 ∧
      ∀ denom ∈ l.bond.reserves, (returns.amountOf denom).toRat = N := by
  obtain ⟨rest, remaining, difference, _, _, hRest, hRemaining, _, _, hRounds, _, hBond, hSound, hReturns⟩ :=
    h.redeem hRedeem
  have hRestZero : rest.toRat = 0 := by
    have hRestRounds := (computes_sub? _ _).rounds (checked_eq_ok_iff.mp hRest)
    rw [hAll, sub_self] at hRestRounds
    exact hRestRounds.eq_of_exact ⟨0, toRat_zero⟩
  have hNothing := h.closed.curveIntegral_zero hRestZero hRemaining
  rw [hNothing, sub_zero] at hRounds
  have hValue := hRounds.eq_of_exact
    (exact_natCast (lt_of_toRat_eq_natCast (h.closed.commonBalance_eq h.holds)))
  have hPayment : payment difference = N := by
    unfold payment
    rw [hValue, Int.floor_natCast, Int.toNat_natCast]
  rw [hPayment, Nat.sub_self] at hSound
  refine ⟨?_, hSound, fun denom hd => by rw [hReturns denom hd, hPayment]⟩
  rw [hBond]
  exact hRestZero

/-- Along a run of small balances from nothing, all reserve tokens hold one whole amount that passes
the strict check and is at least the integral at the supply, which exists once an order has been
filled; and a power bond takes back any amount up to its supply, the whole supply for the whole
reserve. -/
theorem run_solvent_and_redeemable {policy : Policy}
    (hFamily : bond.family = .power ∨ bond.family = .sigmoid)
    (hValid : (bond.validate policy).outcome = .ok ()) (hSupply : bond.supply.amount.toRat = 0)
    {orders : List Order} (hSmall : ∀ past, past <+: orders → ((fresh bond).run past).Small)
    (hRun : (fresh bond).run orders = l) :
    ∃ N : Nat, l.bond.Holds l.balances N ∧ (l.bond.checkBalances l.balances .strict).outcome = .ok () ∧
      (∀ integral, (l.bond.curveIntegral l.bond.supply.amount).outcome = .ok integral →
        integral.toRat ≤ N) ∧
      (l ≠ fresh bond →
        ∃ integral, (l.bond.curveIntegral l.bond.supply.amount).outcome = .ok integral) ∧
      (bond.family = .power → bond.allowSells = true → 0 < l.bond.supply.amount.toRat →
        ∀ amount : Decimal, 0 ≤ amount.toRat → amount.toRat ≤ l.bond.supply.amount.toRat →
          ∃ l' returns, (l.redeem amount).outcome = .ok (l', returns) ∧
            (amount.toRat = l.bond.supply.amount.toRat →
              l'.bond.supply.amount.toRat = 0 ∧ l'.bond.Holds l'.balances 0 ∧
                ∀ denom ∈ l.bond.reserves, (returns.amountOf denom).toRat = N)) := by
  have hClosed := Bond.closedForm_of_validate hFamily hValid
  obtain ⟨N, hSolvent⟩ := solvent_run hClosed hSupply hSmall
  have hSmallNow := hSmall orders (List.prefix_refl _)
  rw [hRun] at hSolvent hSmallNow
  obtain ⟨supply, hTerms⟩ := hSolvent.terms
  refine ⟨N, hSolvent.sound.holds, hSolvent.sound.checkBalances, ?_, ?_, ?_⟩
  · intro integral hIntegral
    rcases hSolvent.backed with hFresh | ⟨backing, hBacking, hCovered⟩
    · subst hFresh
      rw [hClosed.curveIntegral_zero hSupply hIntegral]
      exact Nat.cast_nonneg N
    · rw [hIntegral] at hBacking
      cases hBacking
      exact hCovered
  · intro hTraded
    obtain ⟨integral, hIntegral, _⟩ := hSolvent.backed.resolve_left hTraded
    exact ⟨integral, hIntegral⟩
  · intro hPower hAllowed hPos amount hAmount hLe
    obtain ⟨l', returns, hRedeem⟩ := hSolvent.sound.exists_redeem
      (hSolvent.backed_of_pos hSupply hPos) (by rw [hTerms]; exact hPower) (by rw [hTerms]; exact hAllowed)
      (hSolvent.sound.lt_of_small hSmallNow) hAmount hLe
    refine ⟨l', returns, hRedeem, fun hAll => ?_⟩
    obtain ⟨hNone, hEmpty, hReturns⟩ := hSolvent.sound.redeem_all hAll hRedeem
    exact ⟨hNone, by simpa using hEmpty.holds, hReturns⟩

/-- The reserve for a supply `x` is `x ^ 3 / 10 + 7 * x / 10`, in each of two tokens. -/
def cubicBacked : Bond :=
  { Bond.powerBond (.scaled 3 1) (.units 2) (.scaled 7 1) with reserves := ["one", "two"] }

def cubicOrders : List Order :=
  [.buy (.scaled 25 1), .buy (.scaled 12 1), .sell (.scaled 11 1), .sell (.units 10), .buy (.scaled 3 1)]

/-- Every order is rounded to whole units but the fourth, which is refused. -/
theorem run_solvent_and_redeemable_cubicOrders :
    (cubicBacked.validate .strict).outcome = .ok () ∧ cubicBacked.supply.amount.toRat = 0 ∧
    (∀ past, past <+: cubicOrders → ((fresh cubicBacked).run past).Small) ∧
    ∃ l, (fresh cubicBacked).run cubicOrders = l ∧ l.bond.Holds l.balances 5 ∧
      (l.bond.checkBalances l.balances .strict).outcome = .ok () ∧
      (∃ integral, (l.bond.curveIntegral l.bond.supply.amount).outcome = .ok integral ∧ integral.toRat ≤ 5) ∧
      ∃ l' returns, (l.redeem (.scaled 29 1)).outcome = .ok (l', returns) ∧
        l'.bond.supply.amount.toRat = 0 ∧ ∀ denom ∈ l.bond.reserves, (returns.amountOf denom).toRat = 5 := by
  have hValid : (cubicBacked.validate .strict).outcome = .ok () := by decide +kernel
  have hSupply : cubicBacked.supply.amount.toRat = 0 := toRat_zero
  have hSmall : ∀ past, past <+: cubicOrders → ((fresh cubicBacked).run past).Small := by
    have hAll : ∀ past ∈ cubicOrders.inits, ((fresh cubicBacked).run past).Small := by
      unfold Small
      decide +kernel
    exact fun past hPast => hAll past ((List.mem_inits past cubicOrders).mpr hPast)
  obtain ⟨N, hHolds, hStrict, hCovered, hBacked, hRedeemable⟩ :=
    run_solvent_and_redeemable (.inl rfl) hValid hSupply hSmall rfl
  have hFive : N = 5 := by
    have hFirst : (((fresh cubicBacked).run cubicOrders).balances.amountOf "one").toRat = 5 := by decide +kernel
    exact_mod_cast (hHolds "one" (by decide +kernel)).symm.trans hFirst
  subst hFive
  obtain ⟨integral, hIntegral⟩ := hBacked (by decide +kernel)
  obtain ⟨l', returns, hRedeem, hAll⟩ :=
    hRedeemable rfl rfl (by decide +kernel) (.scaled 29 1) (by decide +kernel) (by decide +kernel)
  obtain ⟨hNone, _, hReturns⟩ := hAll (by decide +kernel)
  exact ⟨hValid, hSupply, hSmall, _, rfl, hHolds, hStrict, ⟨integral, hIntegral, hCovered integral hIntegral⟩,
    l', returns, hRedeem, hNone, hReturns⟩

end Ledger

end BondingCurve
