import BondingCurve.Proofs.Determinism
import BondingCurve.Proofs.Ledger.Excess

/-!
# Unrounded quotes move along the integral

Where every balance is the integral at the current supply, a mint at its unrounded quote pays the
difference of two integrals and a burn returns one, and all of it is exact. So what a run of them
pays in all is the integral it ends at less the one it started from, and a mint that is undone costs
nothing, provided that the integral reads the same value from the supply that comes back.
-/

namespace BondingCurve

open Logged Decimal

namespace Ledger

variable {l l' l₁ l₂ start : Ledger} {bond : Bond} {amount integral : Decimal}
variable {balances paid returned : Coins} {net : String → ℚ}

/-- A mint that pays its quote as it is. -/
def mintAtQuote (l : Ledger) (amount : Decimal) : Logged (Ledger × Coins) := do
  let paid ← l.bond.pricesToMint amount l.balances
  let supply ← l.bond.supply.amount.add amount
  let balances ← l.shifted fun denom old => old.add (paid.amountOf denom)
  return ({ l.withSupply supply with balances := balances }, paid)

/-- A burn that returns its quote as it is. -/
def burnAtQuote (l : Ledger) (amount : Decimal) : Logged (Ledger × Coins) := do
  let returned ← l.bond.returnsForBurn amount l.balances
  let supply ← l.bond.supply.amount.sub amount
  let balances ← l.shifted fun denom old => old.sub (returned.amountOf denom)
  return ({ l.withSupply supply with balances := balances }, returned)

theorem mintAtQuote_eq_ok (hClosed : l.bond.ClosedForm)
    (h : (l.mintAtQuote amount).outcome = .ok (l', paid)) :
    0 ≤ amount.toRat ∧ 0 ≤ l.bond.supply.amount.toRat ∧
      ∃ total target difference f, l.bond.supply.amount.add amount = .ok total ∧
        (l.bond.curveIntegral total).outcome = .ok target ∧
        target.sub (l.bond.commonBalance l.balances) = .ok difference ∧
        (∀ denom ∈ l.bond.reserves,
          (l.balances.amountOf denom).add (Bond.deposit difference) = .ok (f denom)) ∧
        l' = { l.withSupply total with balances := Coins.each l.bond.reserves hClosed.ascending f } ∧
        ∀ denom ∈ l.bond.reserves, paid.amountOf denom = Bond.deposit difference := by
  obtain ⟨prices, hPrices, h⟩ := outcome_bind_eq_ok_iff.mp h
  obtain ⟨supply, hSupply, h⟩ := outcome_bind_eq_ok_iff.mp h
  obtain ⟨balances, hBalances, h⟩ := outcome_bind_eq_ok_iff.mp h
  obtain ⟨rfl, rfl⟩ := Prod.mk.inj (Except.ok.inj h)
  obtain ⟨hSigns, total, target, difference, hTotal, hTarget, hDifference, rfl⟩ :=
    hClosed.pricesToMint_eq_ok_iff.mp hPrices
  rw [outcome_liftM] at hSupply hBalances
  cases hSupply.symm.trans hTotal
  obtain ⟨f, hMoves, rfl⟩ := (shifted_eq_ok_iff hClosed.ascending).mp hBalances
  refine ⟨hSigns.1, hSigns.2.2, supply, target, difference, f, hTotal, hTarget, hDifference, ?_, rfl, ?_⟩
  · intro denom hd
    have hMove := hMoves denom hd
    rwa [Coins.amountOf_each hClosed.ascending hd] at hMove
  · intro denom hd
    exact Coins.amountOf_each hClosed.ascending hd

theorem burnAtQuote_eq_ok (hClosed : l.bond.ClosedForm)
    (h : (l.burnAtQuote amount).outcome = .ok (l', returned)) :
    amount.toRat ≤ l.bond.supply.amount.toRat ∧
      ∃ rest remaining difference f, l.bond.supply.amount.sub amount = .ok rest ∧
        (l.bond.curveIntegral rest).outcome = .ok remaining ∧
        remaining.toRat ≤ (l.bond.commonBalance l.balances).toRat ∧
        (l.bond.commonBalance l.balances).sub remaining = .ok difference ∧
        (∀ denom ∈ l.bond.reserves,
          (l.balances.amountOf denom).sub difference.quantize = .ok (f denom)) ∧
        l' = { l.withSupply rest with balances := Coins.each l.bond.reserves hClosed.ascending f } ∧
        ∀ denom ∈ l.bond.reserves, returned.amountOf denom = difference.quantize := by
  obtain ⟨returns, hReturns, h⟩ := outcome_bind_eq_ok_iff.mp h
  obtain ⟨supply, hSupply, h⟩ := outcome_bind_eq_ok_iff.mp h
  obtain ⟨balances, hBalances, h⟩ := outcome_bind_eq_ok_iff.mp h
  obtain ⟨rfl, rfl⟩ := Prod.mk.inj (Except.ok.inj h)
  obtain ⟨_, hLe, rest, remaining, difference, hRest, hRemaining, hEnough, hDifference, rfl⟩ :=
    hClosed.returnsForBurn_eq_ok_iff.mp hReturns
  rw [outcome_liftM] at hSupply hBalances
  cases hSupply.symm.trans hRest
  obtain ⟨f, hMoves, rfl⟩ := (shifted_eq_ok_iff hClosed.ascending).mp hBalances
  refine ⟨hLe, supply, remaining, difference, f, hRest, hRemaining, hEnough, hDifference, ?_, rfl, ?_⟩
  · intro denom hd
    have hMove := hMoves denom hd
    rwa [Coins.amountOf_each hClosed.ascending hd] at hMove
  · intro denom hd
    exact Coins.amountOf_each hClosed.ascending hd

def WithinBound (l : Ledger) : Prop :=
  ∀ integral, (l.bond.curveIntegral l.bond.supply.amount).outcome = .ok integral →
    integral.toRat < safeBalance

/-- Ledgers that mints and burns at their quotes lead to, with the net amount paid of each token.
Mints of a sigmoid bond are those that do not meet a balance above their integral. -/
inductive Traded (start : Ledger) : Ledger → (String → ℚ) → Prop
  | start : Traded start start fun _ => 0
  | minted {l l' : Ledger} {amount : Decimal} {paid : Coins} {net : String → ℚ}
      (h : Traded start l net) (hMint : (l.mintAtQuote amount).outcome = .ok (l', paid))
      (hBound : l'.WithinBound) (hDue : l.bond.family = .sigmoid → ¬l.Exceeds l') :
      Traded start l' fun denom => net denom + (paid.amountOf denom).toRat
  | burned {l l' : Ledger} {amount : Decimal} {returned : Coins} {net : String → ℚ}
      (h : Traded start l net) (hBurn : (l.burnAtQuote amount).outcome = .ok (l', returned)) :
      Traded start l' fun denom => net denom - (returned.amountOf denom).toRat

/-- All reserve tokens hold the integral at the current supply. -/
structure Matched (bond : Bond) (l : Ledger) (integral : Decimal) : Prop where
  terms : l.KeepsTerms bond
  closed : l.bond.ClosedForm
  backed : (l.bond.curveIntegral l.bond.supply.amount).outcome = .ok integral
  holds : l.bond.Holds l.balances integral.toRat
  small : integral.toRat < safeBalance

section Amounts

variable {I J : Decimal}

theorem exact_sub_of_amounts (hI : IsAmount I.toRat) (hJ : IsAmount J.toRat) (hI₀ : 0 ≤ I.toRat)
    (hJ₀ : 0 ≤ J.toRat) (hIBound : I.toRat < safeBalance) (hJBound : J.toRat < safeBalance) :
    Exact (I.toRat - J.toRat) := by
  have hBound := safeBalance_lt_exactBound
  exact exact_of_isAmount (hI.sub hJ) (abs_lt.mpr ⟨by linarith, by linarith⟩)

end Amounts

theorem Matched.withBalances (h : Matched bond l integral) {supply next : Decimal} {f : String → Decimal}
    (hNext : (l.bond.curveIntegral supply).outcome = .ok next) (hSmall : next.toRat < safeBalance)
    (hf : ∀ denom ∈ l.bond.reserves, (f denom).toRat = next.toRat) :
    Matched bond { l.withSupply supply with
      balances := Coins.each l.bond.reserves h.closed.ascending f } next where
  terms := h.terms.of_withSupply rfl
  closed := ⟨h.closed.family, h.closed.ascending, h.closed.nonempty⟩
  backed := hNext
  holds denom hd := by
    have hMem : denom ∈ l.bond.reserves := hd
    change ((Coins.each l.bond.reserves h.closed.ascending f).amountOf denom).toRat = next.toRat
    rw [Coins.amountOf_each _ hMem]
    exact hf denom hMem
  small := hSmall

theorem Matched.le_target (h : Matched bond l integral) {total target : Decimal}
    (hAmount : 0 ≤ amount.toRat) (hSupply : 0 ≤ l.bond.supply.amount.toRat)
    (hTotal : l.bond.supply.amount.add amount = .ok total)
    (hTarget : (l.bond.curveIntegral total).outcome = .ok target)
    (hDue : l.bond.family = .sigmoid → integral.toRat ≤ target.toRat) :
    integral.toRat ≤ target.toRat := by
  rcases h.closed.family with hPower | hSigmoid
  · obtain ⟨before, hBefore, hLe⟩ := h.closed.curveIntegral_add hPower hSupply hAmount hTotal hTarget
    cases hBefore.symm.trans h.backed
    exact hLe
  · exact hDue hSigmoid

theorem Matched.mint (h : Matched bond l integral)
    (hMint : (l.mintAtQuote amount).outcome = .ok (l', paid)) (hBound : l'.WithinBound)
    (hDue : l.bond.family = .sigmoid → ¬l.Exceeds l') :
    ∃ target total, l.bond.supply.amount.add amount = .ok total ∧ l'.bond = (l.withSupply total).bond ∧
      Matched bond l' target ∧
      ∀ denom ∈ l.bond.reserves, (paid.amountOf denom).toRat = target.toRat - integral.toRat := by
  obtain ⟨hAmount, hSupply, total, target, difference, f, hTotal, hTarget, hDifference, hMoves, rfl, hPaid⟩ :=
    mintAtQuote_eq_ok h.closed hMint
  have hSmall := hBound target hTarget
  have hCommon := h.closed.commonBalance_eq h.holds
  have hRises : integral.toRat ≤ target.toRat := by
    apply h.le_target hAmount hSupply hTotal hTarget
    intro hSigmoid
    by_contra hExcess
    exact hDue hSigmoid ⟨target, hTarget, by rw [hCommon]; exact not_le.mp hExcess⟩
  have hGrid := (Bond.curveIntegral_isAmount hTarget).sub (Bond.curveIntegral_isAmount h.backed)
  have hExact := exact_sub_of_amounts (Bond.curveIntegral_isAmount hTarget)
    (Bond.curveIntegral_isAmount h.backed) (Bond.curveIntegral_nonneg hTarget)
    (Bond.curveIntegral_nonneg h.backed) hSmall h.small
  have hValue := (Bond.roundsSigned_charge hCommon hDifference).eq_of_exact hExact
  have hDeposit : (Bond.deposit difference).toRat = target.toRat - integral.toRat := by
    rw [Bond.toRat_deposit_of_nonneg (hValue ▸ hGrid) (by linarith), hValue]
  refine ⟨target, total, hTotal, rfl, h.withBalances hTarget hSmall fun denom hd => ?_, fun denom hd => ?_⟩
  · have hSum := (computes_add? _ _).rounds (checked_eq_ok_iff.mp (hMoves denom hd))
    rw [h.holds denom hd, hDeposit, add_sub_cancel] at hSum
    exact hSum.eq_of_exact target.exact_toRat
  · rw [hPaid denom hd, hDeposit]

theorem Matched.burn (h : Matched bond l integral)
    (hBurn : (l.burnAtQuote amount).outcome = .ok (l', returned)) :
    ∃ remaining rest, l.bond.supply.amount.sub amount = .ok rest ∧ l'.bond = (l.withSupply rest).bond ∧
      Matched bond l' remaining ∧
      ∀ denom ∈ l.bond.reserves, (returned.amountOf denom).toRat = integral.toRat - remaining.toRat := by
  obtain ⟨_, rest, remaining, difference, f, hRest, hRemaining, hEnough, hDifference, hMoves, rfl,
    hReturned⟩ := burnAtQuote_eq_ok h.closed hBurn
  have hCommon := h.closed.commonBalance_eq h.holds
  rw [hCommon] at hEnough
  have hSmall := hEnough.trans_lt h.small
  have hGrid := (Bond.curveIntegral_isAmount h.backed).sub (Bond.curveIntegral_isAmount hRemaining)
  have hExact := exact_sub_of_amounts (Bond.curveIntegral_isAmount h.backed)
    (Bond.curveIntegral_isAmount hRemaining) (Bond.curveIntegral_nonneg h.backed)
    (Bond.curveIntegral_nonneg hRemaining) h.small hSmall
  have hValue := (Bond.roundsSigned_payout hCommon hDifference).eq_of_exact hExact
  have hPayout : difference.quantize.toRat = integral.toRat - remaining.toRat := by
    rw [toRat_quantize_of_isAmount (hValue ▸ hGrid), hValue]
  refine ⟨remaining, rest, hRest, rfl, h.withBalances hRemaining hSmall fun denom hd => ?_,
    fun denom hd => ?_⟩
  · have hLeft := (computes_sub? _ _).rounds (checked_eq_ok_iff.mp (hMoves denom hd))
    rw [h.holds denom hd, hPayout, sub_sub_cancel] at hLeft
    exact hLeft.eq_of_exact remaining.exact_toRat
  · rw [hReturned denom hd, hPayout]

theorem Matched.reserves_eq (h : Matched bond l integral) : l.bond.reserves = bond.reserves := h.terms.reserves

theorem Matched.curveIntegral_eq (h : Matched bond l integral) :
    (bond.curveIntegral l.bond.supply.amount).outcome = .ok integral := by
  rw [← h.terms.curveIntegral]
  exact h.backed

/-- Along a run the balances follow the integral, and the net amount paid is what they have risen by. -/
theorem Traded.matched (hStart : Matched bond start integral) (h : Traded start l net) :
    ∃ current, Matched bond l current ∧
      ∀ denom ∈ bond.reserves, net denom = current.toRat - integral.toRat := by
  induction h with
  | start => exact ⟨integral, hStart, fun _ _ => (sub_self _).symm⟩
  | minted _ hMint hBound hDue ih =>
    obtain ⟨before, hBefore, hNet⟩ := ih
    obtain ⟨target, _, _, _, hAfter, hPaid⟩ := hBefore.mint hMint hBound hDue
    refine ⟨target, hAfter, fun denom hd => ?_⟩
    dsimp only
    rw [hNet denom hd, hPaid denom (hBefore.reserves_eq ▸ hd)]
    ring
  | burned _ hBurn ih =>
    obtain ⟨before, hBefore, hNet⟩ := ih
    obtain ⟨remaining, _, _, _, hAfter, hReturned⟩ := hBefore.burn hBurn
    refine ⟨remaining, hAfter, fun denom hd => ?_⟩
    dsimp only
    rw [hNet denom hd, hReturned denom (hBefore.reserves_eq ▸ hd)]
    ring

theorem Matched.mint_burn (h : Matched bond l integral)
    (hMint : (l.mintAtQuote amount).outcome = .ok (l₁, paid)) (hBound : l₁.WithinBound)
    (hDue : l.bond.family = .sigmoid → ¬l.Exceeds l₁)
    (hTotal : l₁.bond.supply.amount.toRat = l.bond.supply.amount.toRat + amount.toRat)
    (hBurn : (l₁.burnAtQuote amount).outcome = .ok (l₂, returned)) :
    ∃ again, Matched bond l₂ again ∧ SameValue l.bond.supply.amount l₂.bond.supply.amount ∧
      ∀ denom ∈ bond.reserves, (returned.amountOf denom).toRat =
        (paid.amountOf denom).toRat + (integral.toRat - again.toRat) := by
  obtain ⟨target, _, _, _, hMinted, hPaid⟩ := h.mint hMint hBound hDue
  obtain ⟨again, rest, hRest, hBond, hBurned, hReturned⟩ := hMinted.burn hBurn
  refine ⟨again, hBurned, ?_, fun denom hd => ?_⟩
  · have hRounds := (computes_sub? _ _).rounds (checked_eq_ok_iff.mp hRest)
    rw [hTotal, add_sub_cancel_right] at hRounds
    rw [hBond]
    exact (hRounds.eq_of_exact l.bond.supply.amount.exact_toRat).symm
  · rw [hPaid denom (h.reserves_eq ▸ hd), hReturned denom (hMinted.reserves_eq ▸ hd)]
    ring

/-- From balances at the integral every run of mints and burns at their quotes stays at the integral,
and pays on balance what the integral has risen by. Runs to supplies whose powers agree pay the same.
A mint and the burn that undoes it differ by the integral at the supply before, less the integral at
that supply as it comes back, hence not at all where the powers of the two agree. -/
theorem net_eq_of_traded {policy : Policy} (hFamily : bond.family = .power ∨ bond.family = .sigmoid)
    (hValid : (bond.validate policy).outcome = .ok ())
    (hStart : (bond.curveIntegral bond.supply.amount).outcome = .ok integral)
    (hSmall : integral.toRat < safeBalance) (hHolds : bond.Holds balances integral.toRat)
    (h : Traded ⟨bond, balances⟩ l net) :
    ∃ current, (bond.curveIntegral l.bond.supply.amount).outcome = .ok current ∧
      (∀ denom ∈ bond.reserves, (l.balances.amountOf denom).toRat = current.toRat ∧
        net denom = current.toRat - integral.toRat) ∧
      (∀ l' net', Traded ⟨bond, balances⟩ l' net' →
        SameValue l.bond.supply.amount l'.bond.supply.amount →
        bond.PowersAgree 1 l.bond.supply.amount l'.bond.supply.amount →
        ∀ denom ∈ bond.reserves, net' denom = net denom) ∧
      ∀ amount l₁ l₂ paid returned, (l.mintAtQuote amount).outcome = .ok (l₁, paid) →
        l₁.WithinBound → (bond.family = .sigmoid → ¬l.Exceeds l₁) →
        l₁.bond.supply.amount.toRat = l.bond.supply.amount.toRat + amount.toRat →
        (l₁.burnAtQuote amount).outcome = .ok (l₂, returned) →
        SameValue l.bond.supply.amount l₂.bond.supply.amount ∧
        ∃ again, (bond.curveIntegral l₂.bond.supply.amount).outcome = .ok again ∧
          ∀ denom ∈ bond.reserves,
            (returned.amountOf denom).toRat =
              (paid.amountOf denom).toRat + (current.toRat - again.toRat) ∧
            (bond.PowersAgree 1 l.bond.supply.amount l₂.bond.supply.amount →
              (returned.amountOf denom).toRat = (paid.amountOf denom).toRat) := by
  have hExact : bond.family ≠ .augmented := by
    rcases hFamily with hFamily | hFamily <;> rw [hFamily] <;> decide
  have hMatched : Matched bond ⟨bond, balances⟩ integral :=
    ⟨⟨bond.supply.amount, rfl⟩, Bond.closedForm_of_validate hFamily hValid, hStart, hHolds, hSmall⟩
  obtain ⟨current, hCurrent, hNet⟩ := h.matched hMatched
  refine ⟨current, hCurrent.curveIntegral_eq, fun denom hd => ⟨?_, hNet denom hd⟩, ?_, ?_⟩
  · exact hCurrent.holds denom (hCurrent.reserves_eq ▸ hd)
  · intro l' net' h' hSame hAgree denom hd
    obtain ⟨current', hCurrent', hNet'⟩ := h'.matched hMatched
    have hEqual := Bond.curveIntegral_eq_of_sameValue hExact hSame hAgree hCurrent.curveIntegral_eq
    cases hEqual.symm.trans hCurrent'.curveIntegral_eq
    rw [hNet denom hd, hNet' denom hd]
  · intro amount l₁ l₂ paid returned hMint hBound hDue hTotal hBurn
    have hTerms : l.bond.family = bond.family := by
      obtain ⟨_, hTerms⟩ := hCurrent.terms
      rw [hTerms]
      rfl
    obtain ⟨again, hAgain, hSame, hReturned⟩ :=
      hCurrent.mint_burn hMint hBound (hTerms ▸ hDue) hTotal hBurn
    refine ⟨hSame, again, hAgain.curveIntegral_eq, fun denom hd => ⟨hReturned denom hd, fun hAgree => ?_⟩⟩
    have hEqual := Bond.curveIntegral_eq_of_sameValue hExact hSame hAgree hCurrent.curveIntegral_eq
    cases hEqual.symm.trans hAgain.curveIntegral_eq
    rw [hReturned denom hd, sub_self, add_zero]

def steepened : Ledger :=
  ⟨{ Bond.steepening with supply := ⟨"unit", .scaled 1015 3⟩ },
    .single "res" (.scaled 44370204688805119839439161188 amountPlaces)⟩

def steepenedMinted : Ledger :=
  { steepened.withSupply (.scaled 10151 4) with
    balances := .single "res" (.scaled 49099260712197738908141302715 amountPlaces) }

def steepenedBurned : Ledger :=
  { steepened.withSupply (.scaled 10150 4) with
    balances := .single "res" (.scaled 44370204688805119839439161189 amountPlaces) }

/-- The supply comes back with four places, and the burn returns a last place less than was paid. -/
theorem net_eq_of_traded_steepened :
    (steepened.bond.validate .strict).outcome = .ok () ∧
    (steepened.bond.roundTrip (.scaled 1 4)).outcome =
      .ok ⟨.scaled 44370204688805119839439161188 amountPlaces,
        .single "res" (.scaled 4729056023392619068702141527 amountPlaces),
        .single "res" (.scaled 4729056023392619068702141526 amountPlaces)⟩ ∧
    ∃ current again paid returned,
      (steepened.bond.curveIntegral (.scaled 1015 3)).outcome = .ok current ∧
      (steepened.bond.curveIntegral (.scaled 10150 4)).outcome = .ok again ∧
      (steepened.mintAtQuote (.scaled 1 4)).outcome = .ok (steepenedMinted, paid) ∧
      (steepenedMinted.burnAtQuote (.scaled 1 4)).outcome = .ok (steepenedBurned, returned) ∧
      (returned.amountOf "res").toRat = (paid.amountOf "res").toRat + (current.toRat - again.toRat) ∧
      (returned.amountOf "res").toRat < (paid.amountOf "res").toRat := by
  have hValid : (steepened.bond.validate .strict).outcome = .ok () := by decide +kernel
  have hStart : (steepened.bond.curveIntegral steepened.bond.supply.amount).outcome =
      .ok (.scaled 44370204688805119839439161188 amountPlaces) := by decide +kernel
  have hSmall : (scaled 44370204688805119839439161188 amountPlaces).toRat < (safeBalance : ℚ) := by
    decide +kernel
  have hHolds : steepened.bond.Holds steepened.balances
      (scaled 44370204688805119839439161188 amountPlaces).toRat := by
    unfold Bond.Holds
    decide +kernel
  have hMint : (steepened.mintAtQuote (.scaled 1 4)).outcome = .ok (steepenedMinted,
      .single "res" (.scaled 4729056023392619068702141527 amountPlaces)) := by decide +kernel
  have hBurn : (steepenedMinted.burnAtQuote (.scaled 1 4)).outcome = .ok (steepenedBurned,
      .single "res" (.scaled 4729056023392619068702141526 amountPlaces)) := by decide +kernel
  have hBound : steepenedMinted.WithinBound := by
    intro target hTarget
    have hValue : (steepenedMinted.bond.curveIntegral steepenedMinted.bond.supply.amount).outcome =
        .ok (.scaled 49099260712197738908141302715 amountPlaces) := by decide +kernel
    cases hValue.symm.trans hTarget
    decide +kernel
  obtain ⟨current, hCurrent, _, _, hUndone⟩ :=
    net_eq_of_traded (.inl rfl) hValid hStart hSmall hHolds .start
  obtain ⟨_, again, hAgain, hReturned⟩ := hUndone _ _ _ _ _ hMint hBound (fun h => by cases h)
    (by decide +kernel) hBurn
  exact ⟨hValid, by decide +kernel, current, again, _, _, hCurrent, hAgain, hMint, hBurn,
    (hReturned "res" (by decide +kernel)).1, by decide +kernel⟩

end Ledger

end BondingCurve
