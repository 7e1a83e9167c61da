import BondingCurve.Bond.Guards
import BondingCurve.Bond.Swap
import BondingCurve.Proofs.Violations

/-!
# Violations are reported where they end an operation, and nowhere else

A log holds one error event when its operation ends in a violation, with the text of that violation, and
none when it ends in any other way. The report is made where the violation is found, so the property has to
pass through every step that follows: through binds, through the check that goes on from an error, and past
the steps that leave no log, which therefore must not end in a violation themselves.
-/

namespace BondingCurve

def errorEvents (events : List Event) : List Event := events.filter (·.level = .error)

@[simp]
theorem errorEvents_append (es fs : List Event) : errorEvents (es ++ fs) = errorEvents es ++ errorEvents fs :=
  List.filter_append es fs

/-- The error events that an ending calls for. -/
def reportOf {α : Type} : Except Error α → List Event
  | .error (.violation v) => [⟨.error, s!"Bond invariant violated: {v.message}"⟩]
  | _ => []

theorem reportOf_of_recoverable {α : Type} {outcome : Except Error α} (h : Recoverable outcome) :
    reportOf outcome = [] := by
  unfold reportOf
  split
  · rename_i v
    exact absurd rfl (h v)
  · rfl

def Reports {α : Type} (x : Logged α) : Prop := errorEvents x.events = reportOf x.outcome

namespace Reports

variable {α β : Type}

theorem pure (a : α) : Reports (Pure.pure a : Logged α) := rfl

theorem debug (message : String) : Reports (Logged.debug message) := rfl

theorem warn (message : String) : Reports (Logged.warn message) := rfl

theorem violate (v : Violation) : Reports (Logged.violate v : Logged α) := rfl

theorem violateIf {p : Prop} [Decidable p] (v : Violation) : Reports (Logged.violateIf p v) := by
  rw [Logged.violateIf]
  split
  · exact violate v
  · exact pure ()

/-- A step without a log has nothing to report. -/
theorem lift {x : Except Error α} (h : Recoverable x) : Reports (liftM x : Logged α) :=
  (reportOf_of_recoverable h).symm

theorem bind {x : Logged α} {f : α → Logged β} (h : Reports x) (hNext : ∀ a, Reports (f a)) :
    Reports (x >>= f) := by
  unfold Reports at h ⊢
  cases hOutcome : x.outcome with
  | ok a =>
    rw [hOutcome] at h
    rw [Logged.bind_ok hOutcome, errorEvents_append, h, hNext a]
    rfl
  | error e =>
    rw [hOutcome] at h
    rw [Logged.bind_error hOutcome, h]
    cases e <;> rfl

theorem lift_bind {x : Except Error α} {f : α → Logged β} (h : Recoverable x)
    (hNext : ∀ a, Reports (f a)) : Reports ((liftM x : Logged α) >>= f) :=
  (lift h).bind hNext

/-- What is gone on from must not be a violation: it would stay in the log of an operation that did not
end in one. -/
theorem recover {x : Logged α} {f : Error → Logged α} (h : Reports x) (hOutcome : Recoverable x.outcome)
    (hNext : ∀ e, Reports (f e)) : Reports (x.recover f) := by
  cases hEnd : x.outcome with
  | ok a =>
    rw [Logged.recover_ok hEnd]
    exact h
  | error e =>
    by_cases hRoot : e = .unsettledRoot
    · rw [hRoot] at hEnd
      rw [Logged.recover_unsettledRoot hEnd]
      exact h
    · rw [Logged.recover_error hEnd hRoot, Reports, errorEvents_append, h, reportOf_of_recoverable hOutcome,
        List.nil_append]
      exact hNext e

theorem mapM {f : α → Logged β} (h : ∀ a, Reports (f a)) (as : List α) : Reports (as.mapM f) := by
  induction as with
  | nil => exact pure []
  | cons a as ih =>
    rw [List.mapM_cons]
    exact (h a).bind fun _ => ih.bind fun _ => pure _

end Reports

namespace Recoverable

theorem validateStrict (params : Params) (family : Family) : Recoverable (params.validateStrict family) := by
  unfold Params.validateStrict
  split
  · exact of_ordinary (.refusal rfl)
  · exact of_ordinary (.validateParams params family)

theorem percentageFee (percentage amount : Decimal) : Recoverable (percentageFee percentage amount) :=
  (checked _ _).bind fun _ => (checked _ _).bind fun _ => ok _

theorem fee (percentage : Decimal) (coin : Coin) : Recoverable (coin.fee percentage) :=
  (percentageFee percentage coin.amount).bind fun _ => ok _

theorem fees (percentage : Decimal) (coins : Coins) : Recoverable (coins.fees percentage) :=
  (mapM (fee percentage) coins.toList).bind fun fees => ofList fees

end Recoverable

theorem Curve.reports_integral (curve : Curve) (x : Decimal) : Reports (curve.integral x) := by
  cases curve with
  | power => exact .lift (.of_ordinary .powerIntegral)
  | sigmoid => exact .lift (.of_ordinary .sigmoidIntegral)
  | augmented =>
    apply Reports.lift_bind (.of_ordinary .constants)
    intro k
    exact .lift (.of_ordinary (.ofFloat _ _))
  | swapper => exact .violate _

theorem Family.reports_ofTag (tag : String) : Reports (ofTag tag) := by
  unfold ofTag
  split
  · exact .pure _
  · exact .violate _

namespace Bond

variable (bond : Bond) (balances : Coins)

section Validation

theorem recoverable_validateParams (policy : Policy) : Recoverable (bond.validateParams policy) := by
  unfold validateParams
  split
  · exact .validateStrict bond.params bond.family
  · exact .of_ordinary (.validateParams bond.params bond.family)

theorem recoverable_validateReserves : Recoverable bond.validateReserves :=
  .bind (.refuseIf rfl) fun _ => .refuseIf rfl

theorem recoverable_totalFees : Recoverable bond.totalFees := by
  unfold totalFees
  split
  · exact .ok _
  · exact .of_ordinary (.refusal rfl)

theorem recoverable_validateFees : Recoverable bond.validateFees := by
  apply Recoverable.bind (.sign _ _)
  intro _
  apply Recoverable.bind (.sign _ _)
  intro _
  exact bond.recoverable_totalFees.bind fun _ => .refuseIf rfl

theorem recoverable_validateMaxSupply : Recoverable bond.validateMaxSupply :=
  .bind (.refuseIf rfl) fun _ => .refuseIf rfl

theorem reports_currentSupply : Reports bond.currentSupply := by
  unfold currentSupply
  split
  · exact .violate _
  · exact .pure _

theorem reports_validate (policy : Policy) : Reports (bond.validate policy) := by
  refine .lift_bind (bond.recoverable_validateParams policy) fun _ => ?_
  refine .lift_bind bond.recoverable_validateReserves fun _ => .lift_bind (.refuseIf rfl) fun _ => ?_
  refine .lift_bind bond.recoverable_validateFees fun _ => .lift_bind (.sign _ _) fun _ => ?_
  refine .lift_bind (.sign _ _) fun _ => .lift_bind bond.recoverable_validateMaxSupply fun _ => ?_
  exact bond.reports_currentSupply.bind fun _ => .pure ()

theorem reports_checkBalances (policy : Policy) : Reports (bond.checkBalances balances policy) := by
  apply Reports.lift_bind (.signs _ _)
  intro _
  split
  · exact .pure ()
  · exact .lift_bind (.refuseIf rfl) fun _ => .warn _

end Validation

section Quotes

variable (curve : Curve) (supply mint burn price target reserve share balance : Decimal)

theorem reports_integralOf : Reports (bond.integralOf curve supply) :=
  (curve.reports_integral supply).bind fun _ => (Reports.violateIf _).bind fun _ => .pure _

theorem reports_pricesAtSupply : Reports (bond.pricesAtSupply supply) := by
  refine .lift_bind (.sign _ _) fun _ => .lift_bind bond.recoverable_curve fun curve => ?_
  refine .lift_bind (.of_ordinary (.priceAt supply curve)) fun _ => (Reports.violateIf _).bind fun _ => ?_
  exact (Reports.debug _).bind fun _ => .lift (bond.recoverable_reserveCoins _)

theorem reports_curveIntegral : Reports (bond.curveIntegral supply) :=
  .lift_bind (.sign _ _) fun _ => .lift_bind bond.recoverable_curve fun curve =>
    bond.reports_integralOf curve supply

theorem reports_reserveShare : Reports (bond.reserveShare share balance) :=
  .lift_bind (.checked _ _) fun _ => (Reports.violateIf _).bind fun _ => .pure _

theorem reports_reserveDelta (delta : Decimal) : Reports (bond.reserveDelta delta balances) := by
  refine .lift_bind (.sign _ _) fun _ => .lift_bind (.signs _ _) fun _ => .lift_bind (.refuseIf rfl) fun _ => ?_
  refine .lift_bind (.refuseIf rfl) fun _ => bond.reports_currentSupply.bind fun _ => ?_
  refine .lift_bind (.refuseIf rfl) fun _ => .lift_bind (.checked _ _) fun share => ?_
  refine Reports.bind (.mapM (fun denom => ?_) bond.reserves) fun deltas => .lift (.ofList deltas)
  exact (bond.reports_reserveShare share (balances.amountOf denom)).bind fun _ => .pure _

theorem reports_depositFor : Reports (bond.depositFor target reserve) := by
  apply Reports.lift_bind (.checked _ _)
  intro difference
  dsimp only
  split
  · exact (Reports.debug _).bind fun _ => .pure _
  · exact .pure _

theorem reports_augmentedDeposit (k : Augmented.Constants) :
    Reports (bond.augmentedDeposit k mint reserve supply) :=
  .lift_bind (.of_ordinary (.ofFloat _ _)) fun _ => (Reports.violateIf _).bind fun _ => .pure _

theorem reports_quoteMint : Reports (bond.quoteMint mint supply price) :=
  (Reports.debug _).bind fun _ => .lift (bond.recoverable_reserveCoins _)

theorem reports_pricesToMint : Reports (bond.pricesToMint mint balances) := by
  refine .lift_bind (.sign _ _) fun _ => .lift_bind (.signs _ _) fun _ => ?_
  refine bond.reports_currentSupply.bind fun supply => .lift_bind bond.recoverable_curve fun curve => ?_
  cases curve with
  | power | sigmoid =>
    refine .lift_bind (.checked _ _) fun total => (bond.reports_integralOf _ total).bind fun target => ?_
    exact (bond.reports_depositFor _ _).bind fun price => bond.reports_quoteMint supply mint price
  | augmented =>
    apply Reports.lift_bind (.of_ordinary .constants)
    intro k
    exact (bond.reports_augmentedDeposit _ _ _ k).bind fun price => bond.reports_quoteMint supply mint price
  | swapper => exact .lift_bind (.refuseIf rfl) fun _ => bond.reports_reserveDelta balances mint

theorem reports_payoutFor : Reports (payoutFor target reserve) :=
  (Reports.violateIf _).bind fun _ => .lift_bind (.checked _ _) fun _ => .pure _

theorem reports_augmentedPayout (k : Augmented.Constants) :
    Reports (bond.augmentedPayout k burn reserve supply) :=
  .lift_bind (.of_ordinary (.ofFloat _ _)) fun _ => (Reports.violateIf _).bind fun _ => .pure _

theorem reports_quoteBurn : Reports (bond.quoteBurn burn supply price) :=
  (Reports.debug _).bind fun _ => .lift (bond.recoverable_reserveCoins _)

theorem reports_returnsForBurn : Reports (bond.returnsForBurn burn balances) := by
  refine .lift_bind (.sign _ _) fun _ => .lift_bind (.signs _ _) fun _ => ?_
  refine bond.reports_currentSupply.bind fun supply => .lift_bind bond.recoverable_curve fun curve => ?_
  apply Reports.lift_bind (.refuseIf rfl)
  intro _
  cases curve with
  | power | sigmoid =>
    refine .lift_bind (.checked _ _) fun rest => (bond.reports_integralOf _ rest).bind fun target => ?_
    exact (reports_payoutFor _ _).bind fun payout => bond.reports_quoteBurn supply burn payout
  | augmented =>
    apply Reports.lift_bind (.of_ordinary .constants)
    intro k
    exact (bond.reports_augmentedPayout _ _ _ k).bind fun payout => bond.reports_quoteBurn supply burn payout
  | swapper => exact bond.reports_reserveDelta balances burn

theorem reports_currentPrices : Reports (bond.currentPrices balances) := by
  unfold currentPrices
  split
  · exact bond.reports_pricesToMint balances 1
  · exact bond.reports_currentSupply.bind fun supply => bond.reports_pricesAtSupply supply

theorem reports_returnsForSwap (sold : Coin) (wanted : String) :
    Reports (bond.returnsForSwap sold wanted balances) := by
  refine .lift_bind (.sign _ _) fun _ => .lift_bind (.signs _ _) fun _ => .lift_bind (.refuseIf rfl) fun _ => ?_
  refine .lift_bind (.refuseIf rfl) fun _ => .lift_bind (.refuseIf rfl) fun _ => ?_
  refine .lift_bind (.fee bond.txFee sold) fun _ => .lift_bind (.checked _ _) fun input => ?_
  have hOutput : ∀ inReserve outReserve, Recoverable (constantProductOutput input inReserve outReserve) := by
    intro inReserve outReserve
    exact .bind (.checked _ _) fun _ => .bind (.checked _ _) fun _ => .bind (.checked _ _) fun _ => .ok _
  refine .lift_bind (.refuseIf rfl) fun _ => .lift_bind (hOutput _ _) fun _ => ?_
  refine .lift_bind (.refuseIf rfl) fun _ => .lift_bind (.refuseIf rfl) fun _ => ?_
  exact (Reports.violateIf _).bind fun _ => (Reports.debug _).bind fun _ => .pure _

end Quotes

section Guards

variable (first second : Decimal)

theorem reports_checkMaxSupply (mint : Decimal) : Reports (bond.checkMaxSupply mint) :=
  bond.reports_currentSupply.bind fun _ => .lift_bind (.checked _ _) fun _ => .lift (.refuseIf rfl)

theorem recoverable_sanityBand : Recoverable bond.sanityBand := by
  apply Recoverable.bind (.checked _ _)
  intro rate
  apply Recoverable.bind (.checked _ _)
  intro margin
  exact .bind (.checked _ _) fun _ => .bind (.checked _ _) fun _ => .ok _

theorem reports_ratioOutsideBand : Reports (bond.ratioOutsideBand first second) := by
  unfold ratioOutsideBand
  split
  · exact .pure true
  · refine .lift_bind (.checked _ _) fun rate => .lift_bind bond.recoverable_sanityBand fun band => ?_
    exact (Reports.debug _).bind fun _ => .pure _

theorem recoverable_ratioOutsideBand : Recoverable (bond.ratioOutsideBand first second).outcome := by
  unfold ratioOutsideBand
  split
  · exact .ok true
  · refine .logged_bind (x := liftM (first.quo second)) (.checked _ _) fun rate => ?_
    refine .logged_bind (x := liftM bond.sanityBand) bond.recoverable_sanityBand fun band => ?_
    exact .logged_bind (.ok ()) fun _ => .ok _

theorem reports_violatesSanity : Reports (bond.violatesSanity balances) := by
  unfold violatesSanity
  split
  · exact .pure false
  · split
    · exact (bond.reports_ratioOutsideBand _ _).recover (bond.recoverable_ratioOutsideBand _ _) fun e =>
        (Reports.warn _).bind fun _ => .pure true
    · exact (Reports.debug _).bind fun _ => .pure false

end Guards

end Bond

/-- Whatever a bond, a curve or the registry of families is asked, validated or not, its log has one error
event when the answer is a violation, with the text of that violation, and no error event otherwise. -/
theorem violations_reported_once (bond : Bond) (balances coins : Coins) (amount : Decimal) (coin : Coin)
    (wanted : String) (policy : Policy) (curve : Curve) (family : Family) (params : Params) (tag : String) :
    (Reports (bond.validate policy) ∧ Reports (bond.checkBalances balances policy) ∧
      Reports bond.currentSupply ∧ Reports (bond.curve : Logged Curve) ∧
      Reports (bond.reserveCoins amount : Logged Coins)) ∧
    (Reports (bond.pricesAtSupply amount) ∧ Reports (bond.currentPrices balances) ∧
      Reports (bond.curveIntegral amount) ∧ Reports (bond.reserveDelta amount balances) ∧
      Reports (bond.pricesToMint amount balances) ∧ Reports (bond.returnsForBurn amount balances) ∧
      Reports (bond.returnsForSwap coin wanted balances)) ∧
    (Reports (bond.feeOnTrade coin : Logged Coin) ∧ Reports (bond.feeOnExit coin : Logged Coin) ∧
      Reports (bond.feesOnTrade coins : Logged Coins) ∧ Reports (bond.feesOnExit coins : Logged Coins)) ∧
    (Reports (bond.checkMaxSupply amount) ∧ Reports (bond.ensureSellsAllowed : Logged Unit) ∧
      Reports (bond.violatesSanity balances)) ∧
    (Reports (Curve.ofParams family params : Logged Curve) ∧ Reports (curve.priceAt amount : Logged Decimal) ∧
      Reports (curve.integral amount)) ∧
    Reports (Family.ofTag tag) := by
  refine ⟨⟨?_, ?_, ?_, ?_, ?_⟩, ⟨?_, ?_, ?_, ?_, ?_, ?_, ?_⟩, ⟨?_, ?_, ?_, ?_⟩, ⟨?_, ?_, ?_⟩, ⟨?_, ?_, ?_⟩, ?_⟩
  · exact bond.reports_validate policy
  · exact bond.reports_checkBalances balances policy
  · exact bond.reports_currentSupply
  · exact .lift bond.recoverable_curve
  · exact .lift (bond.recoverable_reserveCoins amount)
  · exact bond.reports_pricesAtSupply amount
  · exact bond.reports_currentPrices balances
  · exact bond.reports_curveIntegral amount
  · exact bond.reports_reserveDelta balances amount
  · exact bond.reports_pricesToMint balances amount
  · exact bond.reports_returnsForBurn balances amount
  · exact bond.reports_returnsForSwap balances coin wanted
  · exact .lift (.fee bond.txFee coin)
  · exact .lift (.fee bond.exitFee coin)
  · exact .lift (.fees bond.txFee coins)
  · exact .lift (.fees bond.exitFee coins)
  · exact bond.reports_checkMaxSupply amount
  · exact .lift (.refuseIf rfl)
  · exact bond.reports_violatesSanity balances
  · exact .lift (.of_ordinary (.ofParams family params))
  · exact .lift (.of_ordinary (.priceAt amount curve))
  · exact curve.reports_integral amount
  · exact Family.reports_ofTag tag

example : errorEvents (Family.ofTag "cubic").events =
    [⟨.error, "Bond invariant violated: unrecognized function type: cubic"⟩] := by
  decide

end BondingCurve
