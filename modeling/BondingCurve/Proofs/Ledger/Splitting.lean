import BondingCurve.Proofs.Decimal.Written
import BondingCurve.Proofs.Determinism
import BondingCurve.Proofs.Ledger.Solvency

/-!
# Splitting an order

A buy leaves the least whole balance that backs the new supply, or one unit more than was held where that is
already above the integral. A sell leaves the least whole balance that backs the rest. So what two orders come
to depends on where they end: two buys cost no less than one, two sells return what one does, as long as the
integral is the same at the supply that two steps lead to and at the one that a single step leads to. The two
have one value, and are mostly written alike too. Where they are not, and the exponent is large, the integrals
may lie on the two sides of a whole number.
-/

namespace BondingCurve

open Logged Decimal

namespace Decimal

variable {x a b sum once twice direct : Decimal}

theorem sameValue_add_add (hSum : sum.toRat = a.toRat + b.toRat) (hOnceExact : Exact (x.toRat + a.toRat))
    (hTwiceExact : Exact (x.toRat + a.toRat + b.toRat)) (hOnce : x.add a = .ok once) (hTwice : once.add b = .ok twice)
    (hDirect : x.add sum = .ok direct) : SameValue twice direct := by
  have hOnceRounds := (computes_add? _ _).rounds (checked_eq_ok_iff.mp hOnce)
  have hTwiceRounds := (computes_add? _ _).rounds (checked_eq_ok_iff.mp hTwice)
  have hDirectRounds := (computes_add? _ _).rounds (checked_eq_ok_iff.mp hDirect)
  rw [hOnceRounds.eq_of_exact hOnceExact] at hTwiceRounds
  rw [hSum, ← add_assoc] at hDirectRounds
  exact (hTwiceRounds.eq_of_exact hTwiceExact).trans (hDirectRounds.eq_of_exact hTwiceExact).symm

theorem sameValue_sub_sub (hSum : sum.toRat = a.toRat + b.toRat) (hOnceExact : Exact (x.toRat - a.toRat))
    (hTwiceExact : Exact (x.toRat - a.toRat - b.toRat)) (hOnce : x.sub a = .ok once) (hTwice : once.sub b = .ok twice)
    (hDirect : x.sub sum = .ok direct) : SameValue twice direct := by
  have hOnceRounds := (computes_sub? _ _).rounds (checked_eq_ok_iff.mp hOnce)
  have hTwiceRounds := (computes_sub? _ _).rounds (checked_eq_ok_iff.mp hTwice)
  have hDirectRounds := (computes_sub? _ _).rounds (checked_eq_ok_iff.mp hDirect)
  rw [hOnceRounds.eq_of_exact hOnceExact] at hTwiceRounds
  rw [hSum, ← sub_sub] at hDirectRounds
  exact (hTwiceRounds.eq_of_exact hTwiceExact).trans (hDirectRounds.eq_of_exact hTwiceExact).symm

end Decimal

namespace Bond

variable {bond : Bond} {x a b sum once twice direct integral : Decimal}

theorem powersAgree_of_power
    (h : ∀ m n c, bond.curve = .ok (.power m n c) → Decimal.PowersAgree (n.toNat + 1) twice direct) :
    bond.PowersAgree 1 twice direct := by
  intro curve hCurve
  cases curve with
  | power m n c => exact h m n c hCurve
  | sigmoid | swapper | augmented => trivial

/-- Amounts added up first lead to the supply that adding them in turn does, for all the integral can tell. -/
theorem powersAgree_of_add_add (hx : 0 ≤ x.toRat) (ha : 0 ≤ a.toRat) (hb : 0 ≤ b.toRat) (hSum : a.add b = .ok sum)
    (hOnce : x.add a = .ok once) (hTwice : once.add b = .ok twice) (hDirect : x.add sum = .ok direct)
    (hSame : SameValue twice direct) : bond.PowersAgree 1 twice direct :=
  powersAgree_of_power fun _ _ _ _ => powersAgree_add_add hx ha hb (checked_eq_ok_iff.mp hOnce)
    (checked_eq_ok_iff.mp hTwice) (checked_eq_ok_iff.mp hSum) (checked_eq_ok_iff.mp hDirect) hSame

/-- So do amounts taken from a supply that has an integral itself. -/
theorem powersAgree_of_sub_sub (hIntegral : (bond.curveIntegral x).outcome = .ok integral) (ha : 0 ≤ a.toRat)
    (hb : 0 ≤ b.toRat) (hLeA : a.toRat ≤ x.toRat) (hLeB : b.toRat ≤ once.toRat) (hSum : a.add b = .ok sum)
    (hOnce : x.sub a = .ok once) (hTwice : once.sub b = .ok twice) (hDirect : x.sub sum = .ok direct) :
    bond.PowersAgree 1 twice direct := by
  refine powersAgree_of_power fun m n c hCurve => ?_
  have hExponent : bond.IntegralExponent (n.toNat + 1) := ⟨m, n, c, hCurve, rfl⟩
  rcases hExponent.lt_two hIntegral with hSmall | hTwo
  · exact .inl hSmall
  · exact powersAgree_sub_sub hTwo ha hb hLeA hLeB (checked_eq_ok_iff.mp hOnce) (checked_eq_ok_iff.mp hTwice)
      (checked_eq_ok_iff.mp hSum) (checked_eq_ok_iff.mp hDirect)

end Bond

namespace Ledger

variable {l l' l₁ l₂ : Ledger} {first second sum amount : Decimal} {paid returned : Coins} {M N : Nat} {s t : ℚ}

/-- The whole balance that a buy leaves, of one that held `N`, where the integral comes to `t`. -/
def funded (N : Nat) (t : ℚ) : Nat := if t < N then N + 1 else ⌈t⌉₊

theorem le_funded (N : Nat) (t : ℚ) : N ≤ funded N t := by
  rw [funded]
  split
  · exact Nat.le_succ N
  · rename_i hDue
    exact_mod_cast (not_lt.mp hDue).trans (Nat.le_ceil t)

theorem self_le_funded (N : Nat) (t : ℚ) : t ≤ funded N t := by
  rw [funded]
  split
  · rename_i hExcess
    push_cast
    linarith
  · exact Nat.le_ceil t

theorem funded_le_iff (h : N ≤ M) : funded N t ≤ M ↔ t ≤ M ∧ (t < N → N < M) := by
  rw [funded]
  split
  · rename_i hExcess
    have hN : (N : ℚ) ≤ M := by exact_mod_cast h
    exact ⟨fun hStep => ⟨by linarith, fun _ => hStep⟩, fun hStep => hStep.2 hExcess⟩
  · rename_i hDue
    rw [Nat.ceil_le]
    exact ⟨fun hCovers => ⟨hCovers, fun hExcess => absurd hExcess hDue⟩, fun hCovers => hCovers.1⟩

/-- A buy on the way leaves no less in the end, whatever the integral there. -/
theorem funded_le_funded (N : Nat) (s t : ℚ) : funded N t ≤ funded (funded N s) t := by
  have hFirst := le_funded N s
  have hSecond := le_funded (funded N s) t
  refine (funded_le_iff (hFirst.trans hSecond)).mpr ⟨self_le_funded _ _, fun hExcess => ?_⟩
  have hAbove : t < funded N s := hExcess.trans_le (by exact_mod_cast hFirst)
  rw [funded, if_pos hAbove]
  omega

theorem add_charge_eq_funded {target difference : Decimal} (hValue : difference.toRat = target.toRat - N) :
    N + charge difference = funded N target.toRat := by
  rw [charge, funded, hValue]
  simp only [sub_neg]
  split
  · rfl
  · rename_i hDue
    have hCeil : N ≤ ⌈target.toRat⌉₊ := by exact_mod_cast (not_lt.mp hDue).trans (Nat.le_ceil _)
    rw [Int.ceil_toNat, Nat.ceil_sub_natCast, Nat.add_sub_cancel' hCeil]

theorem sub_payment_eq_ceil {remaining difference : Decimal} (hLe : remaining.toRat ≤ N)
    (hValue : difference.toRat = N - remaining.toRat) : N - payment difference = ⌈remaining.toRat⌉₊ := by
  have hWithin : ⌈remaining.toRat⌉ ≤ N := Int.ceil_le.mpr (by exact_mod_cast hLe)
  have hFloor : ⌊(N : ℚ) - remaining.toRat⌋ = N - ⌈remaining.toRat⌉ := by
    rw [sub_eq_add_neg, Int.floor_natCast_add, Int.floor_neg]
    ring
  rw [payment, hValue, hFloor, ← Int.ceil_toNat]
  omega

theorem Sound.mint_funded (h : l.Sound N) (hMint : (l.mint amount).outcome = .ok (l', paid)) (hSmall : l'.Small) :
    ∃ target, 0 ≤ amount.toRat ∧ l.bond.supply.amount.add amount = .ok l'.bond.supply.amount ∧
      (l.bond.curveIntegral l'.bond.supply.amount).outcome = .ok target ∧ l'.KeepsTerms l.bond ∧
      l'.Sound (funded N target.toRat) ∧
      ∀ denom ∈ l.bond.reserves, (paid.amountOf denom).toRat = funded N target.toRat - N := by
  obtain ⟨total, target, difference, hAmount, hTotal, hTarget, hRounds, hBond, hSound, hPaid⟩ := h.mint hMint
  obtain rfl : l'.bond.supply.amount = total := by
    rw [hBond]
    rfl
  have hFunded := add_charge_eq_funded (charge_exact (Bond.curveIntegral_nonneg hTarget)
    (Bond.curveIntegral_isAmount hTarget) hRounds (hSound.lt_of_small hSmall))
  refine ⟨target, hAmount, hTotal, hTarget, ⟨_, hBond⟩, hFunded ▸ hSound, fun denom hd => ?_⟩
  rw [hPaid denom hd, ← hFunded, Nat.cast_add, add_sub_cancel_left]

theorem Sound.redeem_rest (h : l.Sound N) (hRedeem : (l.redeem amount).outcome = .ok (l', returned))
    (hSmall : N < safeBalance) :
    ∃ remaining, 0 ≤ amount.toRat ∧ amount.toRat ≤ l.bond.supply.amount.toRat ∧
      l.bond.supply.amount.sub amount = .ok l'.bond.supply.amount ∧
      (l.bond.curveIntegral l'.bond.supply.amount).outcome = .ok remaining ∧ l'.KeepsTerms l.bond ∧
      l'.Sound ⌈remaining.toRat⌉₊ ∧ ⌈remaining.toRat⌉₊ ≤ N ∧
      ∀ denom ∈ l.bond.reserves, (returned.amountOf denom).toRat = N - ⌈remaining.toRat⌉₊ := by
  obtain ⟨rest, remaining, difference, hAmount, hEnough, hRest, hRemaining, hLe, _, hRounds, hWithin, hBond, hSound,
    hReturned⟩ := h.redeem hRedeem
  obtain rfl : l'.bond.supply.amount = rest := by
    rw [hBond]
    rfl
  have hExact := payout_exact (Bond.curveIntegral_nonneg hRemaining) (Bond.curveIntegral_isAmount hRemaining) hLe hSmall
  have hCeil := sub_payment_eq_ceil hLe (hRounds.eq_of_exact hExact)
  refine ⟨remaining, hAmount, hEnough, hRest, hRemaining, ⟨_, hBond⟩, hCeil ▸ hSound, hCeil ▸ Nat.sub_le _ _,
    fun denom hd => ?_⟩
  rw [hReturned denom hd, ← hCeil, Nat.cast_sub hWithin, sub_sub_cancel]

/-- Two mints in a row and a single one: the supplies they lead to, and what they cost in all. -/
theorem Sound.mint_mint {paid₁ paid₂ : Coins} (h : l.Sound N) (hFirst : (l.mint first).outcome = .ok (l₁, paid₁))
    (hSecond : (l₁.mint second).outcome = .ok (l₂, paid₂)) (hDirect : (l.mint sum).outcome = .ok (l', paid))
    (hSmall₁ : l₁.Small) (hSmall₂ : l₂.Small) (hSmall' : l'.Small) :
    ∃ split single : Decimal, ∃ M, 0 ≤ first.toRat ∧ 0 ≤ second.toRat ∧
      l.bond.supply.amount.add first = .ok l₁.bond.supply.amount ∧
      l₁.bond.supply.amount.add second = .ok l₂.bond.supply.amount ∧
      l.bond.supply.amount.add sum = .ok l'.bond.supply.amount ∧
      (l.bond.curveIntegral l₂.bond.supply.amount).outcome = .ok split ∧
      (l.bond.curveIntegral l'.bond.supply.amount).outcome = .ok single ∧
      N ≤ funded M split.toRat ∧ funded N split.toRat ≤ funded M split.toRat ∧
      ∀ denom ∈ l.bond.reserves, (l₂.balances.amountOf denom).toRat = funded M split.toRat ∧
        (paid₁.amountOf denom).toRat + (paid₂.amountOf denom).toRat = funded M split.toRat - N ∧
        (paid.amountOf denom).toRat = funded N single.toRat - N := by
  obtain ⟨target, hFirstSign, hOnce, _, hTerms, hSound₁, hPaid₁⟩ := h.mint_funded hFirst hSmall₁
  obtain ⟨split, hSecondSign, hTwice, hSplit, hTerms₂, hSound₂, hPaid₂⟩ := hSound₁.mint_funded hSecond hSmall₂
  obtain ⟨single, _, hAdded, hSingle, _, _, hPaid⟩ := h.mint_funded hDirect hSmall'
  rw [hTerms.curveIntegral] at hSplit
  rw [hTerms.reserves] at hPaid₂
  refine ⟨split, single, _, hFirstSign, hSecondSign, hOnce, hTwice, hAdded, hSplit, hSingle,
    (le_funded N target.toRat).trans (le_funded _ _), funded_le_funded N _ _, fun denom hd => ⟨?_, ?_, hPaid denom hd⟩⟩
  · exact hSound₂.holds denom (hTerms₂.reserves ▸ hTerms.reserves ▸ hd)
  · rw [hPaid₁ denom hd, hPaid₂ denom hd]
    ring

/-- The same of redemptions. -/
theorem Sound.redeem_redeem {returned₁ returned₂ : Coins} (h : l.Sound N)
    (hFirst : (l.redeem first).outcome = .ok (l₁, returned₁))
    (hSecond : (l₁.redeem second).outcome = .ok (l₂, returned₂))
    (hDirect : (l.redeem sum).outcome = .ok (l', returned)) (hSmall : N < safeBalance) :
    ∃ split single : Decimal, 0 ≤ first.toRat ∧ 0 ≤ second.toRat ∧
      first.toRat ≤ l.bond.supply.amount.toRat ∧ second.toRat ≤ l₁.bond.supply.amount.toRat ∧
      l.bond.supply.amount.sub first = .ok l₁.bond.supply.amount ∧
      l₁.bond.supply.amount.sub second = .ok l₂.bond.supply.amount ∧
      l.bond.supply.amount.sub sum = .ok l'.bond.supply.amount ∧
      (l.bond.curveIntegral l₂.bond.supply.amount).outcome = .ok split ∧
      (l.bond.curveIntegral l'.bond.supply.amount).outcome = .ok single ∧
      ∀ denom ∈ l.bond.reserves,
        (returned₁.amountOf denom).toRat + (returned₂.amountOf denom).toRat = N - ⌈split.toRat⌉₊ ∧
        (returned.amountOf denom).toRat = N - ⌈single.toRat⌉₊ := by
  obtain ⟨remaining, hFirstSign, hLeFirst, hOnce, _, hTerms, hSound₁, hWithin, hReturned₁⟩ :=
    h.redeem_rest hFirst hSmall
  obtain ⟨split, hSecondSign, hLeSecond, hTwice, hSplit, _, _, _, hReturned₂⟩ :=
    hSound₁.redeem_rest hSecond (hWithin.trans_lt hSmall)
  obtain ⟨single, _, _, hTaken, hSingle, _, _, _, hReturned⟩ := h.redeem_rest hDirect hSmall
  rw [hTerms.curveIntegral] at hSplit
  rw [hTerms.reserves] at hReturned₂
  refine ⟨split, single, hFirstSign, hSecondSign, hLeFirst, hLeSecond, hOnce, hTwice, hTaken, hSplit, hSingle,
    fun denom hd => ⟨?_, hReturned denom hd⟩⟩
  rw [hReturned₁ denom hd, hReturned₂ denom hd]
  ring

theorem sound_of_mint (hClosed : l.bond.ClosedForm) (hHolds : l.bond.Holds l.balances N)
    (hMint : (l.mint amount).outcome = .ok (l', paid)) : l.Sound N :=
  have hSigns := (mint_eq_ok hClosed hMint).1
  ⟨hClosed, hHolds, hSigns.2.1, hSigns.2.2⟩

theorem sound_of_redeem (hClosed : l.bond.ClosedForm) (hHolds : l.bond.Holds l.balances N)
    (hRedeem : (l.redeem amount).outcome = .ok (l', returned)) : l.Sound N :=
  have hSigns := ((redeem_eq_ok_iff hClosed).mp hRedeem).2.1
  ⟨hClosed, hHolds, hSigns.2.1, hSigns.2.2⟩

/-- Two buys cost no less than one of their sum, and two sells return what one does, where the powers of the supplies
that they end at agree. Those of buys do for a sum as it is computed, and those of sells if the supply before them also
has an integral. Otherwise two buys cost less just where the reserve they leave falls short of the integral at the other
writing, or where they were free and that integral is below the reserve; and what two sells return differs from what one
does by the two integrals, rounded up. -/
theorem split_orders {policy : Policy} (hFamily : l.bond.family = .power ∨ l.bond.family = .sigmoid)
    (hValid : (l.bond.validate policy).outcome = .ok ()) (hHolds : l.bond.Holds l.balances N) (hSmall : l.Small)
    (hSum : sum.toRat = first.toRat + second.toRat) :
    (∀ l₁ l₂ l' once twice direct, (l.buy first).outcome = .ok (l₁, .done once) →
      (l₁.buy second).outcome = .ok (l₂, .done twice) → (l.buy sum).outcome = .ok (l', .done direct) →
      l₁.Small → l₂.Small → l'.Small → Exact (l.bond.supply.amount.toRat + first.toRat) →
      Exact (l.bond.supply.amount.toRat + first.toRat + second.toRat) →
      SameValue l₂.bond.supply.amount l'.bond.supply.amount ∧
      (first.add second = .ok sum ∨ l.bond.PowersAgree 1 l₂.bond.supply.amount l'.bond.supply.amount →
        ∀ denom ∈ l.bond.reserves, (direct.paid.amountOf denom).toRat ≤
          (once.paid.amountOf denom).toRat + (twice.paid.amountOf denom).toRat) ∧
      ∃ single, (l.bond.curveIntegral l'.bond.supply.amount).outcome = .ok single ∧
        ∀ denom ∈ l.bond.reserves,
          ((direct.paid.amountOf denom).toRat ≤
              (once.paid.amountOf denom).toRat + (twice.paid.amountOf denom).toRat ↔
            single.toRat ≤ (l₂.balances.amountOf denom).toRat ∧
              (single.toRat < N → N < (l₂.balances.amountOf denom).toRat))) ∧
    ∀ l₁ l₂ l' once twice direct, (l.sell first).outcome = .ok (l₁, .done once) →
      (l₁.sell second).outcome = .ok (l₂, .done twice) → (l.sell sum).outcome = .ok (l', .done direct) →
      Exact (l.bond.supply.amount.toRat - first.toRat) →
      Exact (l.bond.supply.amount.toRat - first.toRat - second.toRat) →
      SameValue l₂.bond.supply.amount l'.bond.supply.amount ∧
      ((first.add second = .ok sum ∧ ∃ integral, (l.bond.curveIntegral l.bond.supply.amount).outcome = .ok integral) ∨
          l.bond.PowersAgree 1 l₂.bond.supply.amount l'.bond.supply.amount →
        ∀ denom ∈ l.bond.reserves,
          (once.returns.amountOf denom).toRat + (twice.returns.amountOf denom).toRat =
            (direct.returns.amountOf denom).toRat) ∧
      ∃ split single, (l.bond.curveIntegral l₂.bond.supply.amount).outcome = .ok split ∧
        (l.bond.curveIntegral l'.bond.supply.amount).outcome = .ok single ∧
        ∀ denom ∈ l.bond.reserves,
          (once.returns.amountOf denom).toRat + (twice.returns.amountOf denom).toRat =
            (direct.returns.amountOf denom).toRat + (⌈single.toRat⌉₊ - ⌈split.toRat⌉₊) := by
  have hClosed := Bond.closedForm_of_validate hFamily hValid
  constructor
  · intro l₁ l₂ l' once twice direct hOnce hTwice hDirect hSmall₁ hSmall₂ hSmall' hOnceExact hTwiceExact
    have hMint := (buy_eq_done_iff.mp hOnce).1
    have hSound := sound_of_mint hClosed hHolds hMint
    obtain ⟨split, single, M, hFirst, hSecond, hMidway, hEnd, hEnd', hSplit, hSingle, hGrows, hCovers, hPaid⟩ :=
      hSound.mint_mint hMint (buy_eq_done_iff.mp hTwice).1 (buy_eq_done_iff.mp hDirect).1 hSmall₁ hSmall₂ hSmall'
    have hSame := sameValue_add_add hSum hOnceExact hTwiceExact hMidway hEnd hEnd'
    refine ⟨hSame, fun hAlike denom hd => ?_, single, hSingle, fun denom hd => ?_⟩
    · have hAgree : l.bond.PowersAgree 1 l₂.bond.supply.amount l'.bond.supply.amount := by
        refine hAlike.elim (fun hAdd => ?_) id
        exact Bond.powersAgree_of_add_add hSound.supply_nonneg hFirst hSecond hAdd hMidway hEnd hEnd' hSame
      have hIntegral := Bond.curveIntegral_eq_of_sameValue hClosed.not_augmented hSame hAgree hSplit
      cases hIntegral.symm.trans hSingle
      obtain ⟨_, hInTwo, hInOne⟩ := hPaid denom hd
      rw [hInTwo, hInOne, sub_le_sub_iff_right]
      exact_mod_cast hCovers
    · obtain ⟨hHeld, hInTwo, hInOne⟩ := hPaid denom hd
      rw [hInTwo, hInOne, sub_le_sub_iff_right, Nat.cast_le, hHeld, funded_le_iff hGrows, Nat.cast_lt]
  · intro l₁ l₂ l' once twice direct hOnce hTwice hDirect hOnceExact hTwiceExact
    have hRedeem := (sell_eq_done_iff.mp hOnce).1
    have hSound := sound_of_redeem hClosed hHolds hRedeem
    obtain ⟨split, single, hFirst, hSecond, hLeFirst, hLeSecond, hMidway, hEnd, hEnd', hSplit, hSingle,
      hReturned⟩ := hSound.redeem_redeem hRedeem (sell_eq_done_iff.mp hTwice).1 (sell_eq_done_iff.mp hDirect).1
        (hSound.lt_of_small hSmall)
    have hSame := sameValue_sub_sub hSum hOnceExact hTwiceExact hMidway hEnd hEnd'
    refine ⟨hSame, fun hAlike denom hd => ?_, split, single, hSplit, hSingle, fun denom hd => ?_⟩
    · have hAgree : l.bond.PowersAgree 1 l₂.bond.supply.amount l'.bond.supply.amount := by
        refine hAlike.elim (fun ⟨hAdd, _, hIntegral⟩ => ?_) id
        exact Bond.powersAgree_of_sub_sub hIntegral hFirst hSecond hLeFirst hLeSecond hAdd hMidway hEnd hEnd'
      have hIntegral := Bond.curveIntegral_eq_of_sameValue hClosed.not_augmented hSame hAgree hSplit
      cases hIntegral.symm.trans hSingle
      obtain ⟨hInTwo, hInOne⟩ := hReturned denom hd
      rw [hInTwo, hInOne]
    · obtain ⟨hInTwo, hInOne⟩ := hReturned denom hd
      rw [hInTwo, hInOne]
      ring

/-- The integral at 1.015 is whole, or just above where a place less of it is written. -/
def straddling (supply : Decimal) (balance : Nat) : Ledger :=
  ⟨{ Bond.powerBond (.units 10280000) (.units 1027) (.scaled 192000158188018534 amountPlaces) with
      supply := ⟨"unit", supply⟩ },
    .single "res" (.units balance)⟩

def purchaseFor (amount : Nat) : Purchase := ⟨.single "res" (.units amount), .single "res" 0⟩

def saleFor (amount : Nat) : Sale := ⟨.single "res" (.units amount), .single "res" 0⟩

/-- Two buys end at 1.015000 and one at 1.0150, for one unit more; two sells end at 1.015000 and one at 1.0150, for
one unit less. -/
theorem split_orders_straddling :
    (∃ single, ((straddling 1 0).bond.validate .strict).outcome = .ok () ∧
      ((straddling 1 0).buy (.scaled 10000 6)).outcome =
        .ok (straddling (.scaled 1010000 6) 276931431, .done (purchaseFor 276931431)) ∧
      ((straddling (.scaled 1010000 6) 276931431).buy (.scaled 5000 6)).outcome =
        .ok (straddling (.scaled 1015000 6) 44370204689, .done (purchaseFor 44093273258)) ∧
      ((straddling 1 0).buy (.scaled 150 4)).outcome =
        .ok (straddling (.scaled 10150 4) 44370204690, .done (purchaseFor 44370204690)) ∧
      SameValue (.scaled 1015000 6) (.scaled 10150 4) ∧
      ((straddling 1 0).bond.curveIntegral (.scaled 10150 4)).outcome = .ok single ∧ 44370204689 < single.toRat) ∧
    ∃ split single, ((straddling (.scaled 10151 4) 60000000000).bond.validate .strict).outcome = .ok () ∧
      ((straddling (.scaled 10151 4) 60000000000).sell (.scaled 50 6)).outcome =
        .ok (straddling (.scaled 1015050 6) 46674936336, .done (saleFor 13325063664)) ∧
      ((straddling (.scaled 1015050 6) 46674936336).sell (.scaled 50 6)).outcome =
        .ok (straddling (.scaled 1015000 6) 44370204689, .done (saleFor 2304731647)) ∧
      ((straddling (.scaled 10151 4) 60000000000).sell (.scaled 1 4)).outcome =
        .ok (straddling (.scaled 10150 4) 44370204690, .done (saleFor 15629795310)) ∧
      SameValue (.scaled 1015000 6) (.scaled 10150 4) ∧
      ((straddling 1 0).bond.curveIntegral (.scaled 1015000 6)).outcome = .ok split ∧
      ((straddling 1 0).bond.curveIntegral (.scaled 10150 4)).outcome = .ok single ∧
      ⌈single.toRat⌉₊ = ⌈split.toRat⌉₊ + 1 := by
  constructor
  · have hValid : ((straddling 1 0).bond.validate .strict).outcome = .ok () := by decide +kernel
    have hBuy₁ : ((straddling 1 0).buy (.scaled 10000 6)).outcome =
        .ok (straddling (.scaled 1010000 6) 276931431, .done (purchaseFor 276931431)) := by decide +kernel
    have hBuy₂ : ((straddling (.scaled 1010000 6) 276931431).buy (.scaled 5000 6)).outcome =
        .ok (straddling (.scaled 1015000 6) 44370204689, .done (purchaseFor 44093273258)) := by decide +kernel
    have hBuy : ((straddling 1 0).buy (.scaled 150 4)).outcome =
        .ok (straddling (.scaled 10150 4) 44370204690, .done (purchaseFor 44370204690)) := by decide +kernel
    have hHolds : (straddling 1 0).bond.Holds (straddling 1 0).balances (0 : Nat) := by
      unfold Bond.Holds
      decide +kernel
    obtain ⟨hSame, _, single, hSingle, hCheaper⟩ := (split_orders (.inl rfl) hValid hHolds
      (by unfold Small; decide +kernel) (by decide +kernel)).1 _ _ _ _ _ _ hBuy₁ hBuy₂ hBuy
      (by unfold Small; decide +kernel) (by unfold Small; decide +kernel) (by unfold Small; decide +kernel)
      ⟨.scaled 1010000 6, by decide +kernel⟩ ⟨.scaled 1015000 6, by decide +kernel⟩
    have hLess : ¬((purchaseFor 44370204690).paid.amountOf "res").toRat ≤
        ((purchaseFor 276931431).paid.amountOf "res").toRat +
          ((purchaseFor 44093273258).paid.amountOf "res").toRat := by decide +kernel
    have hHeld : ((straddling (.scaled 1015000 6) 44370204689).balances.amountOf "res").toRat = 44370204689 := by
      decide +kernel
    have hAbove := (hCheaper "res" (by decide +kernel)).not.mp hLess
    rw [hHeld] at hAbove
    exact ⟨single, hValid, hBuy₁, hBuy₂, hBuy, hSame, hSingle,
      lt_of_not_ge fun hLe => hAbove ⟨hLe, fun _ => by norm_num⟩⟩
  · have hValid : ((straddling (.scaled 10151 4) 60000000000).bond.validate .strict).outcome = .ok () := by
      decide +kernel
    have hSell₁ : ((straddling (.scaled 10151 4) 60000000000).sell (.scaled 50 6)).outcome =
        .ok (straddling (.scaled 1015050 6) 46674936336, .done (saleFor 13325063664)) := by decide +kernel
    have hSell₂ : ((straddling (.scaled 1015050 6) 46674936336).sell (.scaled 50 6)).outcome =
        .ok (straddling (.scaled 1015000 6) 44370204689, .done (saleFor 2304731647)) := by decide +kernel
    have hSell : ((straddling (.scaled 10151 4) 60000000000).sell (.scaled 1 4)).outcome =
        .ok (straddling (.scaled 10150 4) 44370204690, .done (saleFor 15629795310)) := by decide +kernel
    have hHolds : (straddling (.scaled 10151 4) 60000000000).bond.Holds
        (straddling (.scaled 10151 4) 60000000000).balances (60000000000 : Nat) := by
      unfold Bond.Holds
      decide +kernel
    obtain ⟨hSame, _, split, single, hSplit, hSingle, hApart⟩ := (split_orders (.inl rfl) hValid hHolds
      (by unfold Small; decide +kernel) (by decide +kernel)).2 _ _ _ _ _ _ hSell₁ hSell₂ hSell
      ⟨.scaled 1015050 6, by decide +kernel⟩ ⟨.scaled 1015000 6, by decide +kernel⟩
    have hMore : ((saleFor 13325063664).returns.amountOf "res").toRat +
        ((saleFor 2304731647).returns.amountOf "res").toRat =
        ((saleFor 15629795310).returns.amountOf "res").toRat + 1 := by decide +kernel
    have hUnit : (⌈single.toRat⌉₊ : ℚ) - ⌈split.toRat⌉₊ = 1 :=
      add_left_cancel ((hApart "res" (by decide +kernel)).symm.trans hMore)
    refine ⟨split, single, hValid, hSell₁, hSell₂, hSell, hSame, hSplit, hSingle, ?_⟩
    have hCeil : (⌈single.toRat⌉₊ : ℚ) = ⌈split.toRat⌉₊ + 1 := by linarith
    exact_mod_cast hCeil

end Ledger

end BondingCurve
