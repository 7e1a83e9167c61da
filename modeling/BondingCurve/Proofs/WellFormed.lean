import BondingCurve.Proofs.Decimal.Amount
import BondingCurve.Proofs.Fees
import BondingCurve.Proofs.Ordinary

/-!
# Every quote is well formed

Whatever a formula returns, floats included, it is cut to an amount and refused below zero before it is
quoted; what the cut leaves has one written form. The reserve tokens of an accepted bond ascend, so the
coins are already in order and no denomination repeats.
-/

namespace BondingCurve

open Logged Decimal

/-- A value has the property, and a failure is not about a repeated denomination. -/
structure Yields {α : Type} (P : α → Prop) (outcome : Except Error α) : Prop where
  value : ∀ a, outcome = .ok a → P a
  unrepeated : ∀ denom, outcome ≠ .error (.duplicateDenom denom)

namespace Yields

variable {α β : Type} {P : α → Prop} {Q : β → Prop}

theorem ok {a : α} (h : P a) : Yields P (.ok a : Except Error α) := by
  refine ⟨?_, nofun⟩
  rintro _ ⟨⟩
  exact h

theorem of_ordinary {x : Except Error α} (h : Ordinary x) (hValue : ∀ a, x = .ok a → P a) : Yields P x := by
  refine ⟨hValue, ?_⟩
  intro denom hRepeat
  cases h _ hRepeat

theorem bind {x : Except Error α} {f : α → Except Error β} (h : Yields P x)
    (hNext : ∀ a, P a → Yields Q (f a)) : Yields Q (x >>= f) := by
  cases x with
  | ok a => exact hNext a (h.value a rfl)
  | error e =>
    refine ⟨nofun, ?_⟩
    rintro denom ⟨⟩
    exact h.unrepeated denom rfl

theorem logged_bind {x : Logged α} {f : α → Logged β} (h : Yields P x.outcome)
    (hNext : ∀ a, P a → Yields Q (f a).outcome) : Yields Q (x >>= f).outcome := by
  rw [outcome_bind]
  exact h.bind hNext

theorem ordinary_bind {x : Except Error α} {f : α → Except Error β} (h : Ordinary x)
    (hNext : ∀ a, x = .ok a → Yields Q (f a)) : Yields Q (x >>= f) :=
  (of_ordinary h fun _ ha => ha).bind hNext

theorem lift_bind {x : Except Error α} {f : α → Logged β} (h : Ordinary x)
    (hNext : ∀ a, x = .ok a → Yields Q (f a).outcome) : Yields Q ((liftM x : Logged α) >>= f).outcome := by
  rw [outcome_bind]
  exact ordinary_bind h hNext

theorem debug {message : String} : Yields (fun _ => True) (Logged.debug message).outcome := ok trivial

theorem violate (v : Violation) : Yields P (violate v : Logged α).outcome := ⟨nofun, nofun⟩

theorem violateIf {p : Prop} [Decidable p] {v : Violation} :
    Yields (fun _ => ¬p) (violateIf p v).outcome := by
  rw [Logged.violateIf]
  split
  · exact violate v
  · exact ok ‹_›

theorem mapM {g : String → Logged Decimal} {P : Decimal → Prop} (h : ∀ denom, Yields P (g denom).outcome)
    (denoms : List String) :
    Yields (fun coins => coins.map (·.denom) = denoms ∧ ∀ c ∈ coins, P c.amount)
      (denoms.mapM fun denom => do return Coin.mk denom (← g denom)).outcome := by
  induction denoms with
  | nil => exact ok ⟨rfl, nofun⟩
  | cons first rest ih =>
    rw [List.mapM_cons]
    have hFirst : Yields (fun c => c.denom = first ∧ P c.amount)
        (do return Coin.mk first (← g first) : Logged Coin).outcome :=
      logged_bind (h first) fun amount hAmount => ok ⟨rfl, hAmount⟩
    refine logged_bind hFirst fun c hc => logged_bind ih fun cs hcs => ok ⟨?_, ?_⟩
    · rw [List.map_cons, hc.1, hcs.1]
    · exact List.forall_mem_cons.mpr ⟨hc.2, hcs.2⟩

end Yields

theorem yields_integral (x : Decimal) (curve : Curve) : Yields (fun _ => True) (curve.integral x).outcome := by
  by_cases hSwapper : curve = .swapper
  · rw [hSwapper]
    exact .violate _
  · exact .of_ordinary (.integral x hSwapper) fun _ _ => trivial

/-- A computed amount that passed the check of its sign. -/
theorem Decimal.wellFormed_of_not_neg {x : Decimal} (h : ¬x.quantize < 0) : x.quantize.WellFormed :=
  wellFormed_quantize (not_lt.mp (mt lt_zero_iff_toRat.mpr h))

namespace Bond

variable {bond : Bond} {policy : Policy} {price share balance target reserve : Decimal}
  {coins : Coins}

/-- One coin a reserve token, in order, each an amount in its shortest form; in lockstep all are one
amount. -/
structure Quoted (bond : Bond) (coins : Coins) : Prop where
  denoms : coins.denoms = bond.reserves
  amounts : ∀ c ∈ coins.toList, c.amount.WellFormed
  lockstep : bond.family.lockstep = true → ∀ c ∈ coins.toList, ∀ d ∈ coins.toList, c.amount = d.amount

theorem quoted_each (h : bond.reserves.Pairwise (· < ·)) (hPrice : price.WellFormed) :
    bond.Quoted (Coins.each bond.reserves h fun _ => price) where
  denoms := Coins.denoms_each h
  amounts c hc := by
    obtain ⟨_, _, rfl⟩ := List.mem_map.mp hc
    exact hPrice
  lockstep _ c hc d hd := by
    obtain ⟨_, _, rfl⟩ := List.mem_map.mp hc
    obtain ⟨_, _, rfl⟩ := List.mem_map.mp hd
    rfl

theorem yields_reserveCoins (h : bond.reserves.Pairwise (· < ·)) (hPrice : price.WellFormed) :
    Yields bond.Quoted (bond.reserveCoins price) := by
  rw [reserveCoins, Coins.uniform_each h]
  exact .ok (quoted_each h hPrice)

theorem yields_currentSupply : Yields (fun _ => True) bond.currentSupply.outcome := by
  rw [currentSupply]
  split
  · exact .violate _
  · exact .ok trivial

theorem yields_pricesAtSupply (h : bond.reserves.Pairwise (· < ·)) (supply : Decimal) :
    Yields bond.Quoted (bond.pricesAtSupply supply).outcome := by
  refine .lift_bind (.sign _ _) fun _ _ => .lift_bind (.ofParams _ _) fun curve _ => ?_
  refine .lift_bind (.priceAt _ _) fun price _ => .logged_bind .violateIf fun _ hSign => ?_
  exact .logged_bind .debug fun _ _ => yields_reserveCoins h (wellFormed_of_not_neg hSign)

/-- What every formula's result goes through. -/
theorem yields_quantized (x : Decimal) (v : Violation) :
    Yields WellFormed (do violateIf (x.quantize < 0) v; return x.quantize : Logged Decimal).outcome :=
  .logged_bind .violateIf fun _ hSign => .ok (wellFormed_of_not_neg hSign)

theorem yields_integralOf (curve : Curve) (supply : Decimal) :
    Yields WellFormed (bond.integralOf curve supply).outcome :=
  .logged_bind (yields_integral _ _) fun integral _ => yields_quantized integral _

theorem yields_curveIntegral (supply : Decimal) : Yields WellFormed (bond.curveIntegral supply).outcome := by
  refine .lift_bind (.sign _ _) fun _ _ => .lift_bind (.ofParams _ _) fun curve _ => ?_
  exact yields_integralOf curve supply

theorem yields_reserveShare : Yields WellFormed (bond.reserveShare share balance).outcome :=
  .lift_bind (.checked _ _) fun amount _ => yields_quantized amount _

theorem yields_reserveDelta (h : bond.reserves.Pairwise (· < ·)) (delta : Decimal) (balances : Coins) :
    Yields bond.Quoted (bond.reserveDelta delta balances).outcome := by
  refine .lift_bind (.sign _ _) fun _ _ => .lift_bind (.signs _ _) fun _ _ => ?_
  refine .lift_bind (.refuseIf rfl) fun _ hFamily => .lift_bind (.refuseIf rfl) fun _ _ => ?_
  refine .logged_bind yields_currentSupply fun supply _ => .lift_bind (.refuseIf rfl) fun _ _ => ?_
  refine .lift_bind (.checked _ _) fun share _ => ?_
  refine .logged_bind (.mapM (fun _ => yields_reserveShare) bond.reserves) fun deltas hDeltas => ?_
  have hAscending : (deltas.map (·.denom)).Pairwise (· < ·) := by
    rw [hDeltas.1]
    exact h
  rw [outcome_liftM, Coins.ofList_of_pairwise (List.pairwise_map.mp hAscending)]
  refine .ok ⟨hDeltas.1, hDeltas.2, fun hLockstep => ?_⟩
  rw [not_not.mp (refuseIf_eq_ok_iff.mp hFamily)] at hLockstep
  cases hLockstep

theorem yields_depositFor : Yields WellFormed (bond.depositFor target reserve).outcome := by
  refine .lift_bind (.checked _ _) fun difference _ => ?_
  dsimp only
  split
  · exact .logged_bind .debug fun _ _ => .ok wellFormed_one
  · rename_i hSign
    exact .ok (wellFormed_of_not_neg hSign)

theorem yields_augmentedDeposit {k : Augmented.Constants} {mint supply : Decimal} :
    Yields WellFormed (bond.augmentedDeposit k mint reserve supply).outcome :=
  .lift_bind (.ofFloat _ _) fun deposit _ => yields_quantized deposit _

theorem yields_quoteMint (h : bond.reserves.Pairwise (· < ·)) {mint supply : Decimal}
    (hPrice : price.WellFormed) : Yields bond.Quoted (bond.quoteMint mint supply price).outcome :=
  .logged_bind .debug fun _ _ => yields_reserveCoins h hPrice

theorem yields_pricesToMint (h : bond.reserves.Pairwise (· < ·)) (mint : Decimal) (balances : Coins) :
    Yields bond.Quoted (bond.pricesToMint mint balances).outcome := by
  refine .lift_bind (.sign _ _) fun _ _ => .lift_bind (.signs _ _) fun _ _ => ?_
  refine .logged_bind yields_currentSupply fun supply _ => .lift_bind (.ofParams _ _) fun curve _ => ?_
  cases curve with
  | power | sigmoid =>
    refine .lift_bind (.checked _ _) fun total _ => .logged_bind (yields_integralOf _ _) fun target _ => ?_
    exact .logged_bind yields_depositFor fun price hPrice => yields_quoteMint h hPrice
  | augmented =>
    refine .lift_bind .constants fun k _ => ?_
    exact .logged_bind yields_augmentedDeposit fun price hPrice => yields_quoteMint h hPrice
  | swapper => exact .lift_bind (.refuseIf rfl) fun _ _ => yields_reserveDelta h _ _

theorem yields_payoutFor : Yields WellFormed (payoutFor target reserve).outcome := by
  refine .logged_bind .violateIf fun _ hEnough => .lift_bind (.checked _ _) fun difference hDifference => ?_
  have hLe : target.toRat ≤ reserve.toRat := not_lt.mp (mt lt_iff_toRat_lt.mpr hEnough)
  exact .ok (wellFormed_quantize (quantize_nonneg (sub_nonneg_of_sub hLe hDifference)))

theorem yields_augmentedPayout {k : Augmented.Constants} {burn supply : Decimal} :
    Yields WellFormed (bond.augmentedPayout k burn reserve supply).outcome :=
  .lift_bind (.ofFloat _ _) fun released _ => yields_quantized released _

theorem yields_quoteBurn (h : bond.reserves.Pairwise (· < ·)) {burn supply : Decimal}
    (hPrice : price.WellFormed) : Yields bond.Quoted (bond.quoteBurn burn supply price).outcome :=
  .logged_bind .debug fun _ _ => yields_reserveCoins h hPrice

theorem yields_returnsForBurn (h : bond.reserves.Pairwise (· < ·)) (burn : Decimal) (balances : Coins) :
    Yields bond.Quoted (bond.returnsForBurn burn balances).outcome := by
  refine .lift_bind (.sign _ _) fun _ _ => .lift_bind (.signs _ _) fun _ _ => ?_
  refine .logged_bind yields_currentSupply fun supply _ => .lift_bind (.ofParams _ _) fun curve _ => ?_
  refine .lift_bind (.refuseIf rfl) fun _ _ => ?_
  cases curve with
  | power | sigmoid =>
    refine .lift_bind (.checked _ _) fun rest _ => .logged_bind (yields_integralOf _ _) fun target _ => ?_
    exact .logged_bind yields_payoutFor fun payout hPayout => yields_quoteBurn h hPayout
  | augmented =>
    refine .lift_bind .constants fun k _ => ?_
    exact .logged_bind yields_augmentedPayout fun payout hPayout => yields_quoteBurn h hPayout
  | swapper => exact yields_reserveDelta h _ _

theorem yields_currentPrices (h : bond.reserves.Pairwise (· < ·)) (balances : Coins) :
    Yields bond.Quoted (bond.currentPrices balances).outcome := by
  rw [currentPrices]
  split
  · exact yields_pricesToMint h _ _
  · exact .logged_bind yields_currentSupply fun supply _ => yields_pricesAtSupply h supply

section Swap

variable {sold : Coin} {wanted : String} {input inReserve outReserve percentage amount : Decimal}

theorem yields_percentageFee (hPercentage : 0 ≤ percentage.toRat) (hAmount : 0 ≤ amount.toRat) :
    Yields WellFormed (percentageFee percentage amount) := by
  refine .ordinary_bind (.checked _ _) fun rate hRate => ?_
  refine .ordinary_bind (.checked _ _) fun product hProduct => .ok ?_
  have hRateNonneg := (roundsSigned_rate hRate).nonneg (div_nonneg hPercentage (by norm_num))
  have hProductNonneg := ((computes_mul? rate amount).rounds (checked_eq_ok_iff.mp hProduct)).nonneg
    (mul_nonneg hRateNonneg hAmount)
  exact wellFormed_quantizeUp hProductNonneg

theorem yields_feeOnTrade (hFee : 0 ≤ bond.txFee.toRat) (hSold : 0 ≤ sold.amount.toRat) :
    Yields (fun fee => fee.denom = sold.denom ∧ fee.amount.WellFormed) (bond.feeOnTrade sold) :=
  (yields_percentageFee hFee hSold).bind fun _ hAmount => .ok ⟨rfl, hAmount⟩

theorem ordinary_constantProductOutput : Ordinary (constantProductOutput input inReserve outReserve) := by
  refine .bind (.checked _ _) fun product => .bind (.checked _ _) fun pool => ?_
  exact .bind (.checked _ _) fun quotient => .ok _

/-- The fee is paid in what is sold, and something is returned in what is wanted. -/
structure TradedFor (sold : Coin) (wanted : String) (trade : SwapReturn) : Prop where
  fee_denom : trade.fee.denom = sold.denom
  fee : trade.fee.amount.WellFormed
  returns_denom : trade.returns.denom = wanted
  returns : trade.returns.amount.WellFormed
  positive : 0 < trade.returns.amount.toRat

theorem yields_returnsForSwap (hFee : 0 ≤ bond.txFee.toRat) (sold : Coin) (wanted : String)
    (balances : Coins) : Yields (TradedFor sold wanted) (bond.returnsForSwap sold wanted balances).outcome := by
  refine .lift_bind (.sign _ _) fun _ hSold => .lift_bind (.signs _ _) fun _ _ => ?_
  refine .lift_bind (.refuseIf rfl) fun _ _ => .lift_bind (.refuseIf rfl) fun _ _ => ?_
  refine .lift_bind (.refuseIf rfl) fun _ _ => ?_
  have hPaid := yields_feeOnTrade hFee (ensureNonNegative_eq_ok_iff.mp hSold)
  refine .logged_bind (x := liftM (bond.feeOnTrade sold)) hPaid fun fee hTaken => ?_
  refine .lift_bind (.checked _ _) fun input _ => .lift_bind (.refuseIf rfl) fun _ _ => ?_
  refine .lift_bind ordinary_constantProductOutput fun output hOutput => ?_
  refine .lift_bind (.refuseIf rfl) fun _ _ => .lift_bind (.refuseIf rfl) fun _ hSome => ?_
  refine .logged_bind .violateIf fun _ hSign => .logged_bind .debug fun _ _ => .ok ?_
  obtain ⟨_, _, quotient, _, _, _, rfl⟩ := constantProductOutput_eq_ok_iff.mp hOutput
  have hReturns := wellFormed_of_not_neg hSign
  have hNonzero := mt isZero_iff_toRat.mpr (refuseIf_eq_ok_iff.mp hSome)
  exact ⟨hTaken.1, hTaken.2, rfl, hReturns, lt_of_le_of_ne hReturns.nonneg (Ne.symm hNonzero)⟩

end Swap

/-- Whatever an accepted bond is asked with, its quotes are well formed and none of them fails over a
repeated denomination. -/
theorem quotes_wellFormed (hValid : (bond.validate policy).outcome = .ok ()) (amount : Decimal)
    (balances : Coins) (sold : Coin) (wanted : String) :
    Yields bond.Quoted (bond.pricesAtSupply amount).outcome ∧
    Yields bond.Quoted (bond.currentPrices balances).outcome ∧
    Yields bond.Quoted (bond.pricesToMint amount balances).outcome ∧
    Yields bond.Quoted (bond.returnsForBurn amount balances).outcome ∧
    Yields bond.Quoted (bond.reserveDelta amount balances).outcome ∧
    Yields WellFormed (bond.curveIntegral amount).outcome ∧
    Yields (TradedFor sold wanted) (bond.returnsForSwap sold wanted balances).outcome := by
  have hAccepted := validate_eq_ok_iff.mp hValid
  have hAscending := hAccepted.ascending
  exact ⟨yields_pricesAtSupply hAscending amount, yields_currentPrices hAscending balances,
    yields_pricesToMint hAscending amount balances, yields_returnsForBurn hAscending amount balances,
    yields_reserveDelta hAscending amount balances, yields_curveIntegral amount,
    yields_returnsForSwap hAccepted.txFee sold wanted balances⟩

def evenReserves : Coins := .each ["aaa", "bbb"] (by decide) fun _ => .units 1000

/-- A twentieth of the supply costs a twentieth of either reserve. The eighteenth digit of what a swap
returns is a zero, and is not written. -/
theorem quotes_wellFormed_pair :
    (pair.validate .strict).outcome = .ok () ∧
    (pair.pricesToMint (.units 5) evenReserves).outcome =
      .ok (.each ["aaa", "bbb"] (by decide) fun _ => .units 50) ∧
    pair.Quoted (.each ["aaa", "bbb"] (by decide) fun _ => .units 50) ∧
    ∃ trade, (pair.returnsForSwap ⟨"aaa", .units 3⟩ "bbb" evenReserves).outcome = .ok trade ∧
      TradedFor ⟨"aaa", .units 3⟩ "bbb" trade := by
  have hValid : (pair.validate .strict).outcome = .ok () := by decide +kernel
  have hMint : (pair.pricesToMint (.units 5) evenReserves).outcome =
      .ok (.each ["aaa", "bbb"] (by decide) fun _ => .units 50) := by decide +kernel
  have hSwap : ∃ trade, (pair.returnsForSwap ⟨"aaa", .units 3⟩ "bbb" evenReserves).outcome = .ok trade :=
    ⟨⟨⟨"aaa", 0⟩, ⟨"bbb", .scaled 299102691924227318 17⟩⟩, by decide +kernel⟩
  obtain ⟨trade, hTrade⟩ := hSwap
  obtain ⟨_, _, hMinted, _, _, _, hTraded⟩ :=
    quotes_wellFormed hValid (.units 5) evenReserves ⟨"aaa", .units 3⟩ "bbb"
  exact ⟨hValid, hMint, hMinted.value _ hMint, trade, hTrade, hTraded.value _ hTrade⟩

end Bond

end BondingCurve
