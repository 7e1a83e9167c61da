import BondingCurve.Bond.Guards
import BondingCurve.Bond.Swap
import BondingCurve.Proofs.Alike
import BondingCurve.Proofs.Settlement

/-!
# Quotes depend on values only

On bonds, coins and balances that differ in the scale of their decimals at most, every quote ends
alike, in the same digits or in errors of one kind. Where a power curve takes powers above exponent
1023 this asks for supplies whose powers agree; no other operation reads more than a value.
-/

namespace BondingCurve

open Logged Decimal

structure Coin.Alike (c d : Coin) : Prop where
  denom : c.denom = d.denom
  amount : SameValue c.amount d.amount

namespace Coins

variable {coins coins' : Coins}

def Alike (coins coins' : Coins) : Prop := List.Forall₂ Coin.Alike coins.toList coins'.toList

theorem Alike.amountOf (h : coins.Alike coins') (denom : String) :
    SameValue (coins.amountOf denom) (coins'.amountOf denom) := by
  have hDenoms : ∀ c d : Coin, c.Alike d → (c.denom == denom) = (d.denom == denom) := by
    intro c d hCoin
    rw [hCoin.denom]
  have hFound := rel_find? hDenoms h
  rw [Coins.amountOf_eq_find?, Coins.amountOf_eq_find?]
  cases hc : coins.toList.find? (·.denom == denom) with
  | none =>
    cases hd : coins'.toList.find? (·.denom == denom) with
    | none => exact .refl 0
    | some d =>
      rw [hc, hd] at hFound
      cases hFound
  | some c =>
    cases hd : coins'.toList.find? (·.denom == denom) with
    | none =>
      rw [hc, hd] at hFound
      cases hFound
    | some d =>
      rw [hc, hd] at hFound
      cases hFound with
      | some hCoin => exact hCoin.amount

theorem Alike.anyNegative_iff (h : coins.Alike coins') : coins.AnyNegative ↔ coins'.AnyNegative := by
  have hSign : ∀ c d : Coin, c.Alike d → (c.IsNegative ↔ d.IsNegative) := fun c d hCoin =>
    hCoin.amount.lt_iff (.refl 0)
  rw [AnyNegative, AnyNegative]
  rw [Alike] at h
  generalize coins.toList = cs at h ⊢
  generalize coins'.toList = ds at h ⊢
  induction h with
  | nil => simp
  | cons hFirst _ ih => simp [hSign _ _ hFirst, ih]

theorem agree_ensureNonNegative (h : coins.Alike coins') (name : String) :
    Agree Eq (coins.ensureNonNegative name) (coins'.ensureNonNegative name) :=
  agree_refuseIf h.anyNegative_iff rfl

end Coins

namespace Bond

variable {bond bond' : Bond} {x x' : Decimal} {balances balances' : Coins} {coin coin' : Coin}

/-- Equal field by field, up to the scale of the decimals. -/
structure Alike (bond bond' : Bond) : Prop where
  token : bond.token = bond'.token
  name : bond.name = bond'.name
  description : bond.description = bond'.description
  creator : bond.creator = bond'.creator
  signers : bond.signers = bond'.signers
  family : bond.family = bond'.family
  params : bond.params.Alike bond'.params
  reserves : bond.reserves = bond'.reserves
  reserveAddress : bond.reserveAddress = bond'.reserveAddress
  txFee : SameValue bond.txFee bond'.txFee
  exitFee : SameValue bond.exitFee bond'.exitFee
  feeAddress : bond.feeAddress = bond'.feeAddress
  maxSupply : bond.maxSupply.Alike bond'.maxSupply
  orderLimits : bond.orderLimits.Alike bond'.orderLimits
  sanityRate : SameValue bond.sanityRate bond'.sanityRate
  sanityMargin : SameValue bond.sanityMargin bond'.sanityMargin
  allowSells : bond.allowSells = bond'.allowSells
  batchBlocks : bond.batchBlocks = bond'.batchBlocks
  supply : bond.supply.Alike bond'.supply

theorem Alike.refl (bond : Bond) : bond.Alike bond where
  token := rfl
  name := rfl
  description := rfl
  creator := rfl
  signers := rfl
  family := rfl
  params := List.forall₂_same.mpr fun _ _ => ⟨rfl, rfl, rfl⟩
  reserves := rfl
  reserveAddress := rfl
  txFee := rfl
  exitFee := rfl
  feeAddress := rfl
  maxSupply := ⟨rfl, rfl⟩
  orderLimits := List.forall₂_same.mpr fun _ _ => ⟨rfl, rfl⟩
  sanityRate := rfl
  sanityMargin := rfl
  allowSells := rfl
  batchBlocks := rfl
  supply := ⟨rfl, rfl⟩

/-- The powers that the bond takes of two supplies agree, of its exponent and `k` more. -/
def PowersAgree (bond : Bond) (k : Nat) (x y : Decimal) : Prop :=
  ∀ curve, bond.curve = .ok curve → curve.PowersAgree k x y

section Lockstep

variable {curve curve' : Curve} {amount amount' supply supply' reserve reserve' : Decimal}

theorem Alike.agree_curve (h : bond.Alike bond') (hFamily : bond.family ≠ .augmented) :
    Agree Curve.Alike bond.curve bond'.curve := by
  rw [curve, curve, ← h.family]
  exact Curve.agree_ofParams h.params hFamily

theorem Alike.agree_currentSupply (h : bond.Alike bond') :
    Agree SameValue bond.currentSupply.outcome bond'.currentSupply.outcome := by
  have hSign : bond.supply.IsNegative ↔ bond'.supply.IsNegative := h.supply.amount.lt_iff (.refl 0)
  rw [currentSupply, currentSupply]
  by_cases hNegative : bond.supply.IsNegative
  · rw [if_pos hNegative, if_pos (hSign.mp hNegative)]
    exact .error rfl
  · rw [if_neg hNegative, if_neg (mt hSign.mpr hNegative)]
    exact .ok h.supply.amount

theorem Alike.commonBalance (h : bond.Alike bond') (hBalances : balances.Alike balances') :
    SameValue (bond.commonBalance balances) (bond'.commonBalance balances') := by
  rw [Bond.commonBalance, Bond.commonBalance, ← h.reserves]
  cases bond.reserves with
  | nil => exact .refl 0
  | cons denom _ => exact hBalances.amountOf denom

theorem Alike.agree_reserveCoins (h : bond.Alike bond') (amount : Decimal) :
    Agree Eq (bond.reserveCoins amount) (bond'.reserveCoins amount) := by
  rw [reserveCoins, reserveCoins, h.reserves]
  exact .refl _

theorem Alike.agree_pricesAtSupply (h : bond.Alike bond') (hFamily : bond.family ≠ .augmented)
    (hx : SameValue x x') (hAgree : bond.PowersAgree 0 x x') :
    Agree Eq (bond.pricesAtSupply x).outcome (bond'.pricesAtSupply x').outcome := by
  refine agree_bind_of_eq_ok (Decimal.agree_ensureNonNegative hx _) fun _ _ hSign _ _ => ?_
  refine agree_bind_of_eq_ok (h.agree_curve hFamily) fun curve curve' hCurve _ hCurves => ?_
  refine agree_bind (Curve.agree_priceAt (ensureNonNegative_eq_ok_iff.mp hSign) hx hCurves
    (hAgree curve hCurve)) fun price price' hPrice => ?_
  rw [quantize_eq hPrice]
  refine agree_bind (agree_violateIf Iff.rfl rfl) fun _ _ _ => ?_
  exact agree_bind (.refl _) fun _ _ _ => h.agree_reserveCoins _

theorem Alike.agree_integralOf (hSupply : 0 ≤ supply.toRat) (hSame : SameValue supply supply')
    (hCurves : curve.Alike curve') (hAgree : curve.PowersAgree 1 supply supply') :
    Agree Eq (bond.integralOf curve supply).outcome (bond'.integralOf curve' supply').outcome := by
  refine agree_bind (Curve.agree_integral hSupply hSame hCurves hAgree) fun exact exact' hExact => ?_
  rw [quantize_eq hExact]
  exact agree_bind (agree_violateIf Iff.rfl rfl) fun _ _ _ => .refl _

theorem Alike.agree_curveIntegral (h : bond.Alike bond') (hFamily : bond.family ≠ .augmented)
    (hx : SameValue x x') (hAgree : bond.PowersAgree 1 x x') :
    Agree Eq (bond.curveIntegral x).outcome (bond'.curveIntegral x').outcome := by
  refine agree_bind_of_eq_ok (Decimal.agree_ensureNonNegative hx _) fun _ _ hSign _ _ => ?_
  refine agree_bind_of_eq_ok (h.agree_curve hFamily) fun curve curve' hCurve _ hCurves => ?_
  exact agree_integralOf (ensureNonNegative_eq_ok_iff.mp hSign) hx hCurves (hAgree curve hCurve)

theorem curveIntegral_eq_of_sameValue {integral : Decimal} (hFamily : bond.family ≠ .augmented)
    (hx : SameValue x x') (hAgree : bond.PowersAgree 1 x x')
    (h : (bond.curveIntegral x).outcome = .ok integral) :
    (bond.curveIntegral x').outcome = .ok integral :=
  ((Alike.refl bond).agree_curveIntegral hFamily hx hAgree).eq_ok h

theorem agree_depositFor {target : Decimal} (hReserve : SameValue reserve reserve') :
    Agree Eq (bond.depositFor target reserve).outcome (bond'.depositFor target reserve').outcome := by
  refine agree_bind (agree_sub (.refl _) hReserve) fun difference difference' hDifference => ?_
  rw [quantize_eq hDifference]
  dsimp only
  split
  · exact agree_bind (.refl _) fun _ _ _ => .refl _
  · exact .refl _

theorem agree_payoutFor {remaining : Decimal} (hReserve : SameValue reserve reserve') :
    Agree Eq (payoutFor remaining reserve).outcome (payoutFor remaining reserve').outcome := by
  refine agree_bind (agree_violateIf (hReserve.lt_iff (.refl _)) rfl) fun _ _ _ => ?_
  refine agree_bind (agree_sub hReserve (.refl _)) fun difference difference' hDifference => ?_
  rw [quantize_eq hDifference]
  exact .refl _

theorem Alike.agree_quoteMint (h : bond.Alike bond') (price : Decimal) :
    Agree Eq (bond.quoteMint amount supply price).outcome
      (bond'.quoteMint amount' supply' price).outcome :=
  agree_bind (.refl _) fun _ _ _ => h.agree_reserveCoins _

theorem Alike.agree_quoteBurn (h : bond.Alike bond') (payout : Decimal) :
    Agree Eq (bond.quoteBurn amount supply payout).outcome
      (bond'.quoteBurn amount' supply' payout).outcome :=
  agree_bind (.refl _) fun _ _ _ => h.agree_reserveCoins _

end Lockstep

section Swapper

theorem agree_reserveShare {share share' balance balance' : Decimal} (hShare : SameValue share share')
    (hBalance : SameValue balance balance') (hToken : bond.token = bond'.token) :
    Agree Eq (bond.reserveShare share balance).outcome (bond'.reserveShare share' balance').outcome := by
  refine agree_bind (agree_mul hShare hBalance) fun amount amount' hAmount => ?_
  rw [quantize_eq hAmount, hToken]
  exact agree_bind (agree_violateIf Iff.rfl rfl) fun _ _ _ => .refl _

theorem Alike.agree_reserveDelta (h : bond.Alike bond') (hx : SameValue x x')
    (hBalances : balances.Alike balances') :
    Agree Eq (bond.reserveDelta x balances).outcome (bond'.reserveDelta x' balances').outcome := by
  refine agree_bind (Decimal.agree_ensureNonNegative hx _) fun _ _ _ => ?_
  refine agree_bind (Coins.agree_ensureNonNegative hBalances _) fun _ _ _ => ?_
  refine agree_bind (agree_refuseIf (by rw [h.family]) rfl) fun _ _ _ => ?_
  refine agree_bind (agree_refuseIf (by rw [h.reserves]) rfl) fun _ _ _ => ?_
  refine agree_bind h.agree_currentSupply fun supply supply' hSupply => ?_
  refine agree_bind (agree_refuseIf (by rw [hSupply.isZero_eq]) rfl) fun _ _ _ => ?_
  refine agree_bind (agree_quo hx hSupply) fun share share' hShare => ?_
  rw [← h.reserves]
  refine agree_bind (agree_mapM (fun denom => ?_) _) fun deltas deltas' hDeltas => ?_
  · refine agree_bind (agree_reserveShare hShare (hBalances.amountOf denom) h.token)
      fun amount amount' hAmount => ?_
    rw [hAmount]
    exact .refl _
  · rw [hDeltas]
    exact .refl _

theorem agree_percentageFee {percentage percentage' amount amount' : Decimal}
    (hPercentage : SameValue percentage percentage') (hAmount : SameValue amount amount') :
    Agree Eq (percentageFee percentage amount) (percentageFee percentage' amount') := by
  refine (agree_quo hPercentage (.refl _)).bind fun rate rate' hRate => ?_
  refine (agree_mul hRate hAmount).bind fun fee fee' hFee => ?_
  rw [quantizeUp_eq hFee]
  exact .refl _

theorem agree_fee {percentage percentage' : Decimal} (hPercentage : SameValue percentage percentage')
    (hCoin : coin.Alike coin') : Agree Eq (coin.fee percentage) (coin'.fee percentage') := by
  refine (agree_percentageFee hPercentage hCoin.amount).bind fun fee fee' hFee => ?_
  rw [hFee, hCoin.denom]
  exact .refl _

theorem agree_constantProductOutput {input input' reserve reserve' out out' : Decimal}
    (hInput : SameValue input input') (hIn : SameValue reserve reserve') (hOut : SameValue out out') :
    Agree Eq (constantProductOutput input reserve out)
      (constantProductOutput input' reserve' out') := by
  refine (agree_mul hInput hOut).bind fun product product' hProduct => ?_
  refine (agree_add hIn hInput).bind fun pool pool' hPool => ?_
  refine (agree_quo hProduct hPool).bind fun quotient quotient' hQuotient => ?_
  rw [quantize_eq hQuotient]
  exact .refl _

theorem Alike.agree_returnsForSwap (h : bond.Alike bond') (hCoin : coin.Alike coin') (wanted : String)
    (hBalances : balances.Alike balances') :
    Agree Eq (bond.returnsForSwap coin wanted balances).outcome
      (bond'.returnsForSwap coin' wanted balances').outcome := by
  have hIn := hBalances.amountOf coin.denom
  have hOut := hBalances.amountOf wanted
  refine agree_bind (Decimal.agree_ensureNonNegative hCoin.amount _) fun _ _ _ => ?_
  refine agree_bind (Coins.agree_ensureNonNegative hBalances _) fun _ _ _ => ?_
  refine agree_bind (agree_refuseIf (by rw [h.family]) rfl) fun _ _ _ => ?_
  refine agree_bind (agree_refuseIf (by rw [IsReserve, IsReserve, h.reserves, hCoin.denom]) rfl)
    fun _ _ _ => ?_
  refine agree_bind (agree_refuseIf (by rw [IsReserve, IsReserve, h.reserves]) rfl) fun _ _ _ => ?_
  refine agree_bind (agree_fee h.txFee hCoin) fun fee fee' hFee => ?_
  rw [← hFee, ← hCoin.denom]
  refine agree_bind (agree_sub hCoin.amount (.refl _)) fun input input' hInput => ?_
  refine agree_bind (agree_refuseIf (hInput.le_iff (.refl _)) rfl) fun _ _ _ => ?_
  refine agree_bind (agree_constantProductOutput hInput hIn hOut) fun output output' hOutput => ?_
  rw [← hOutput]
  refine agree_bind (agree_refuseIf ?_ rfl) fun _ _ _ => ?_
  · rw [equiv_iff_toRat_eq, equiv_iff_toRat_eq, hOut]
  refine agree_bind (agree_refuseIf Iff.rfl rfl) fun _ _ _ => ?_
  refine agree_bind (agree_violateIf Iff.rfl rfl) fun _ _ _ => ?_
  exact agree_bind (.refl _) fun _ _ _ => .refl _

end Swapper

theorem Alike.agree_pricesToMint (h : bond.Alike bond') (hFamily : bond.family ≠ .augmented)
    (hx : SameValue x x') (hBalances : balances.Alike balances')
    (hAgree : ∀ total total', bond.supply.amount.add x = .ok total →
      bond'.supply.amount.add x' = .ok total' → bond.PowersAgree 1 total total') :
    Agree Eq (bond.pricesToMint x balances).outcome (bond'.pricesToMint x' balances').outcome := by
  refine agree_bind_of_eq_ok (Decimal.agree_ensureNonNegative hx _) fun _ _ hAmount _ _ => ?_
  refine agree_bind (Coins.agree_ensureNonNegative hBalances _) fun _ _ _ => ?_
  refine agree_bind_of_eq_ok h.agree_currentSupply fun supply supply' hSupply hSupply' hSame => ?_
  refine agree_bind_of_eq_ok (h.agree_curve hFamily) fun curve curve' hCurve _ hCurves => ?_
  obtain ⟨hSign, rfl⟩ := currentSupply_eq_ok_iff.mp hSupply
  obtain ⟨_, rfl⟩ := currentSupply_eq_ok_iff.mp hSupply'
  have hQuote : Agree Eq
      (outcome (do
        let target ← bond.integralOf curve (← bond.supply.amount.add x)
        bond.quoteMint x bond.supply.amount
          (← bond.depositFor target (bond.commonBalance balances))))
      (outcome (do
        let target ← bond'.integralOf curve' (← bond'.supply.amount.add x')
        bond'.quoteMint x' bond'.supply.amount
          (← bond'.depositFor target (bond'.commonBalance balances')))) := by
    refine agree_bind_of_eq_ok (agree_add hSame hx) fun total total' hTotal hTotal' hTotals => ?_
    have hNonneg := add_nonneg_of_add hSign (ensureNonNegative_eq_ok_iff.mp hAmount) hTotal
    have hIntegrals : Agree Eq (bond.integralOf curve total).outcome
        (bond'.integralOf curve' total').outcome :=
      agree_integralOf hNonneg hTotals hCurves (hAgree total total' hTotal hTotal' curve hCurve)
    refine agree_bind hIntegrals fun target target' hTarget => ?_
    rw [← hTarget]
    refine agree_bind (agree_depositFor (h.commonBalance hBalances)) fun price price' hPrice => ?_
    rw [← hPrice]
    exact h.agree_quoteMint price
  cases hCurves with
  | power hm hc => exact hQuote
  | sigmoid ha hb hc hPos => exact hQuote
  | swapper =>
    refine agree_bind (agree_refuseIf (by rw [hSame.isZero_eq]) rfl) fun _ _ _ => ?_
    exact h.agree_reserveDelta hx hBalances

theorem Alike.agree_returnsForBurn (h : bond.Alike bond') (hFamily : bond.family ≠ .augmented)
    (hx : SameValue x x') (hBalances : balances.Alike balances')
    (hAgree : ∀ rest rest', bond.supply.amount.sub x = .ok rest →
      bond'.supply.amount.sub x' = .ok rest' → bond.PowersAgree 1 rest rest') :
    Agree Eq (bond.returnsForBurn x balances).outcome (bond'.returnsForBurn x' balances').outcome := by
  refine agree_bind (Decimal.agree_ensureNonNegative hx _) fun _ _ _ => ?_
  refine agree_bind (Coins.agree_ensureNonNegative hBalances _) fun _ _ _ => ?_
  refine agree_bind_of_eq_ok h.agree_currentSupply fun supply supply' hSupply hSupply' hSame => ?_
  refine agree_bind_of_eq_ok (h.agree_curve hFamily) fun curve curve' hCurve _ hCurves => ?_
  obtain ⟨_, rfl⟩ := currentSupply_eq_ok_iff.mp hSupply
  obtain ⟨_, rfl⟩ := currentSupply_eq_ok_iff.mp hSupply'
  refine agree_bind_of_eq_ok (agree_refuseIf (hSame.lt_iff hx) rfl) fun _ _ hEnough _ _ => ?_
  have hQuote : Agree Eq
      (outcome (do
        let remaining ← bond.integralOf curve (← bond.supply.amount.sub x)
        bond.quoteBurn x bond.supply.amount
          (← payoutFor remaining (bond.commonBalance balances))))
      (outcome (do
        let remaining ← bond'.integralOf curve' (← bond'.supply.amount.sub x')
        bond'.quoteBurn x' bond'.supply.amount
          (← payoutFor remaining (bond'.commonBalance balances')))) := by
    refine agree_bind_of_eq_ok (agree_sub hSame hx) fun rest rest' hRest hRest' hRests => ?_
    have hLe : x.toRat ≤ bond.supply.amount.toRat :=
      not_lt.mp (mt lt_iff_toRat_lt.mpr (refuseIf_eq_ok_iff.mp hEnough))
    have hNonneg := sub_nonneg_of_sub hLe hRest
    have hIntegrals : Agree Eq (bond.integralOf curve rest).outcome
        (bond'.integralOf curve' rest').outcome :=
      agree_integralOf hNonneg hRests hCurves (hAgree rest rest' hRest hRest' curve hCurve)
    refine agree_bind hIntegrals fun remaining remaining' hRemaining => ?_
    rw [← hRemaining]
    refine agree_bind (agree_payoutFor (h.commonBalance hBalances)) fun payout payout' hPayout => ?_
    rw [← hPayout]
    exact h.agree_quoteBurn payout
  cases hCurves with
  | power hm hc => exact hQuote
  | sigmoid ha hb hc hPos => exact hQuote
  | swapper => exact h.agree_reserveDelta hx hBalances

theorem Alike.agree_currentPrices (h : bond.Alike bond') (hFamily : bond.family ≠ .augmented)
    (hBalances : balances.Alike balances')
    (hAgree : bond.PowersAgree 0 bond.supply.amount bond'.supply.amount) :
    Agree Eq (bond.currentPrices balances).outcome (bond'.currentPrices balances').outcome := by
  rw [currentPrices, currentPrices, ← h.family]
  split
  · rename_i hSwapper
    refine h.agree_pricesToMint hFamily (.refl 1) hBalances fun _ _ _ _ curve hCurve => ?_
    rw [Bond.curve, hSwapper] at hCurve
    rw [Curve.ofParams_swapper hCurve]
    trivial
  · refine agree_bind_of_eq_ok h.agree_currentSupply fun supply supply' hSupply hSupply' hSame => ?_
    obtain ⟨_, rfl⟩ := currentSupply_eq_ok_iff.mp hSupply
    obtain ⟨_, rfl⟩ := currentSupply_eq_ok_iff.mp hSupply'
    exact h.agree_pricesAtSupply hFamily hSame hAgree

section Sanity

variable {first first' second second' : Decimal}

theorem Alike.agree_sanityBand (h : bond.Alike bond') :
    Agree (fun p q => SameValue p.1 q.1 ∧ SameValue p.2 q.2) bond.sanityBand bond'.sanityBand := by
  refine (agree_quo h.sanityMargin (.refl _)).bind fun share share' hShare => ?_
  refine (agree_mul h.sanityRate hShare).bind fun margin margin' hMargin => ?_
  refine (agree_add h.sanityRate hMargin).bind fun upper upper' hUpper => ?_
  refine (agree_sub h.sanityRate hMargin).bind fun lower lower' hLower => ?_
  refine .ok ⟨?_, hUpper⟩
  by_cases hNegative : lower < 0
  · rw [if_pos hNegative, if_pos ((hLower.lt_iff (.refl 0)).mp hNegative)]
    exact .refl 0
  · rw [if_neg hNegative, if_neg (mt (hLower.lt_iff (.refl 0)).mpr hNegative)]
    exact hLower

theorem Alike.agree_ratioOutsideBand (h : bond.Alike bond') (hFirst : SameValue first first')
    (hSecond : SameValue second second') :
    Agree Eq (bond.ratioOutsideBand first second).outcome
      (bond'.ratioOutsideBand first' second').outcome := by
  rw [ratioOutsideBand, ratioOutsideBand, ← hSecond.isZero_eq]
  split
  · exact .refl _
  · refine agree_bind (agree_quo hFirst hSecond) fun rate rate' hRate => ?_
    refine agree_bind h.agree_sanityBand fun band band' hBand => ?_
    refine agree_bind (.refl _) fun _ _ _ => .ok ?_
    rw [decide_eq_decide.mpr (hRate.lt_iff hBand.1), decide_eq_decide.mpr (hBand.2.lt_iff hRate)]

theorem Alike.agree_violatesSanity (h : bond.Alike bond') (hBalances : balances.Alike balances') :
    Agree Eq (bond.violatesSanity balances).outcome (bond'.violatesSanity balances').outcome := by
  rw [violatesSanity, violatesSanity, ← h.sanityRate.isZero_eq, ← h.reserves]
  split
  · exact .refl _
  split
  · rename_i first second _
    refine agree_recover (h.agree_ratioOutsideBand (hBalances.amountOf first)
      (hBalances.amountOf second)) fun _ _ => ?_
    exact agree_bind (.refl _) fun _ _ _ => .refl _
  · exact agree_bind (.refl _) fun _ _ _ => .refl _

end Sanity

/-- On bonds and arguments that are alike up to the scale of their decimals every operation ends in
the same digits or in errors of one kind, provided that the powers it takes of two supplies agree:
none is taken but by a power curve, and below exponent 1024 all agree. -/
theorem quotes_agree_of_alike (hBond : bond.Alike bond') (hFamily : bond.family ≠ .augmented)
    (hx : SameValue x x') (hCoin : coin.Alike coin') (hBalances : balances.Alike balances') :
    (bond.PowersAgree 0 x x' →
      Agree Eq (bond.pricesAtSupply x).outcome (bond'.pricesAtSupply x').outcome) ∧
    (bond.PowersAgree 1 x x' →
      Agree Eq (bond.curveIntegral x).outcome (bond'.curveIntegral x').outcome) ∧
    ((∀ total total', bond.supply.amount.add x = .ok total →
        bond'.supply.amount.add x' = .ok total' → bond.PowersAgree 1 total total') →
      Agree Eq (bond.pricesToMint x balances).outcome (bond'.pricesToMint x' balances').outcome) ∧
    ((∀ rest rest', bond.supply.amount.sub x = .ok rest →
        bond'.supply.amount.sub x' = .ok rest' → bond.PowersAgree 1 rest rest') →
      Agree Eq (bond.returnsForBurn x balances).outcome
        (bond'.returnsForBurn x' balances').outcome) ∧
    (bond.PowersAgree 0 bond.supply.amount bond'.supply.amount →
      Agree Eq (bond.currentPrices balances).outcome (bond'.currentPrices balances').outcome) ∧
    Agree Eq (bond.reserveDelta x balances).outcome (bond'.reserveDelta x' balances').outcome ∧
    (∀ wanted, Agree Eq (bond.returnsForSwap coin wanted balances).outcome
      (bond'.returnsForSwap coin' wanted balances').outcome) ∧
    Agree Eq (bond.feeOnTrade coin) (bond'.feeOnTrade coin') ∧
    Agree Eq (bond.feeOnExit coin) (bond'.feeOnExit coin') ∧
    Agree Eq (bond.violatesSanity balances).outcome (bond'.violatesSanity balances').outcome := by
  refine ⟨hBond.agree_pricesAtSupply hFamily hx, hBond.agree_curveIntegral hFamily hx,
    hBond.agree_pricesToMint hFamily hx hBalances, hBond.agree_returnsForBurn hFamily hx hBalances,
    hBond.agree_currentPrices hFamily hBalances, hBond.agree_reserveDelta hx hBalances, ?_, ?_, ?_, ?_⟩
  · intro wanted
    exact hBond.agree_returnsForSwap hCoin wanted hBalances
  · exact agree_fee hBond.txFee hCoin
  · exact agree_fee hBond.exitFee hCoin
  · exact hBond.agree_violatesSanity hBalances

/-- Its integral takes powers with exponent 1028. -/
def steepening : Bond := powerBond (.units 10280000) (.units 1027) 0

/-- Supply 1.015 written with three and with four places: the integral differs in the last place. -/
theorem quotes_agree_of_alike_steepening :
    (steepening.validate .strict).outcome = .ok () ∧
    SameValue (.scaled 1015 3) (.scaled 10150 4) ∧
    Agree Eq (steepening.feeOnTrade ⟨"res", .scaled 1015 3⟩)
      (steepening.feeOnTrade ⟨"res", .scaled 10150 4⟩) ∧
    (steepening.curveIntegral (.scaled 1015 3)).outcome =
      .ok (.scaled 44370204688805119839439161188 amountPlaces) ∧
    (steepening.curveIntegral (.scaled 10150 4)).outcome =
      .ok (.scaled 44370204688805119839439161189 amountPlaces) ∧
    ¬steepening.PowersAgree 1 (.scaled 1015 3) (.scaled 10150 4) := by
  have hSame : SameValue (.scaled 1015 3) (.scaled 10150 4) := by
    unfold SameValue
    decide +kernel
  have hFirst : (steepening.curveIntegral (.scaled 1015 3)).outcome =
      .ok (.scaled 44370204688805119839439161188 amountPlaces) := by decide +kernel
  have hSecond : (steepening.curveIntegral (.scaled 10150 4)).outcome =
      .ok (.scaled 44370204688805119839439161189 amountPlaces) := by decide +kernel
  have hCoin : Coin.Alike ⟨"res", .scaled 1015 3⟩ ⟨"res", .scaled 10150 4⟩ := ⟨rfl, hSame⟩
  have hBalances : Coins.empty.Alike .empty := .nil
  obtain ⟨_, hIntegral, _, _, _, _, _, hFee, _⟩ :=
    quotes_agree_of_alike (Alike.refl steepening) (by decide) hSame hCoin hBalances
  refine ⟨by decide +kernel, hSame, hFee, hFirst, hSecond, fun hAgree => ?_⟩
  have hEnds := hIntegral hAgree
  rw [hFirst, hSecond] at hEnds
  cases hEnds with
  | ok hDigits => exact absurd hDigits (by decide +kernel)

end Bond

end BondingCurve
