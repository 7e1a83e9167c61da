import BondingCurve.Bond.Basic

/-!
# Validating a bond

The checks run in a fixed order and the first that fails is reported: parameters, reserve tokens,
order limits, fees, sanity band, supply cap, supply. A policy may also refuse repeated parameter
names, and reserve balances that differ where one balance is meant to stand for all.
-/

namespace BondingCurve

/-- How strictly bonds and balances are checked. -/
structure Policy where
  rejectDuplicateParams : Bool := false
  requireUniformReserves : Bool := false
deriving DecidableEq

namespace Policy

def permissive : Policy := {}

def strict : Policy := ⟨true, true⟩

end Policy

namespace Bond

/-- Neighbours in strictly ascending order. -/
def Ascending (denoms : List String) : Prop := denoms.Pairwise (· < ·)

instance (denoms : List String) : Decidable (Ascending denoms) :=
  inferInstanceAs (Decidable (denoms.Pairwise (· < ·)))

def validateParams (bond : Bond) (policy : Policy) : Except Error Unit :=
  if policy.rejectDuplicateParams then bond.params.validateStrict bond.family
  else bond.params.validate bond.family

def validateReserves (bond : Bond) : Except Error Unit := do
  let rule := bond.family.reserveCount
  let count := bond.reserves.length
  refuseIf (¬rule.Accepts count) (.wrongReserveCount rule.expected count)
  refuseIf (¬Ascending bond.reserves) .reservesNotSorted

def totalFees (bond : Bond) : Except Error Decimal :=
  match bond.txFee.add? bond.exitFee with
  | some total => .ok total
  | none => .error (.arithmeticOverflow .feePercentages)

/-- Both fees are non-negative and together below one hundred percent. -/
def validateFees (bond : Bond) : Except Error Unit := do
  bond.txFee.ensureNonNegative "TxFeePercentage"
  bond.exitFee.ensureNonNegative "ExitFeePercentage"
  refuseIf (Decimal.hundred ≤ (← bond.totalFees)) (.feesTooHigh bond.txFee bond.exitFee)

def validateMaxSupply (bond : Bond) : Except Error Unit := do
  let denom := bond.maxSupply.denom
  let token := bond.token
  refuseIf (denom ≠ token)
    (.invalidMaxSupply s!"denomination {denom} does not match token {token}")
  refuseIf bond.maxSupply.IsNegative (.invalidMaxSupply (toString bond.maxSupply))

def validate (bond : Bond) (policy : Policy) : Logged Unit := do
  bond.validateParams policy
  bond.validateReserves
  refuseIf bond.orderLimits.AnyNegative .orderLimitsInvalid
  bond.validateFees
  bond.sanityRate.ensureNonNegative "SanityRate"
  bond.sanityMargin.ensureNonNegative "SanityMarginPercentage"
  bond.validateMaxSupply
  let _ ← bond.currentSupply

/-- The reserve tokens of a lockstep bond all hold the balance of the first. -/
def Uniform (bond : Bond) (balances : Coins) : Prop :=
  bond.family.lockstep = true →
    ∀ denom ∈ bond.reserves, balances.amountOf denom ≈ bond.commonBalance balances

instance (bond : Bond) (balances : Coins) : Decidable (bond.Uniform balances) :=
  inferInstanceAs (Decidable (_ → ∀ denom ∈ bond.reserves, _))

def warnUneven (bond : Bond) (balances : Coins) : Logged Unit :=
  let token := bond.token
  let first := bond.commonBalance balances
  .warn (s!"Bond {token} reserve balances are not uniform ({balances}); " ++
    s!"pricing uses the first balance {first}")

/-- Checks balances ahead of a quote. Uneven balances of a lockstep bond are noted, or refused
where the policy asks for uniform ones. -/
def checkBalances (bond : Bond) (balances : Coins) (policy : Policy) : Logged Unit := do
  balances.ensureNonNegative "reserve balances"
  if bond.Uniform balances then return ()
  else
    refuseIf (policy.requireUniformReserves = true) (.nonUniformReserves (toString balances))
    bond.warnUneven balances

end Bond

end BondingCurve
