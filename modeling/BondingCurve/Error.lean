import BondingCurve.Decimal.Text
import BondingCurve.Family

/-!
# Errors in two tiers

An error is a cause, and its wording is a function of the cause. Causes in the upper tier are
refusals that a caller can handle; a `Violation` says that a bond or its ledger is broken, and the
state transition under way must be abandoned. One ending is in neither tier: at a root that does
not settle an assertion fails, nothing is returned, and no caller goes on.
-/

namespace BondingCurve

inductive Operation
  | add
  | sub
  | mul
  | quo
  | power
deriving DecidableEq

def Operation.name : Operation → String
  | add => "add"
  | sub => "sub"
  | mul => "mul"
  | quo => "quo"
  | power => "power"

/-- A result outside the range of its type. -/
inductive Overflow
  | arithmetic (operation : Operation)
  | powerExponent
  | feePercentages
  | word (name : String)
  | notFinite (operation : String)
  | outOfRange (operation written : String)
  | augmentedInvariant
deriving DecidableEq

def Overflow.message : Overflow → String
  | arithmetic operation => operation.name
  | powerExponent => "power exponent"
  | feePercentages => "fee percentages"
  | word name => s!"{name} does not fit in u64"
  | notFinite operation => s!"{operation} produced a non-finite result"
  | outOfRange operation written => s!"{operation} result {written} out of range"
  | augmentedInvariant => "augmented invariant is not finite"

/-- Conditions that a well-configured, well-kept bond never meets. -/
inductive Violation
  | negativePrice (bond : String)
  | negativeIntegral (bond : String)
  | negativeReserveDelta (bond : String)
  | negativeSwapReturn (bond : String)
  | insufficientReserveForBurn (required available : Decimal)
  | negativeSupply (bond : String)
  | undefinedIntegral (family : Family)
  | unrecognizedFamily (tag : String)
deriving DecidableEq

def Violation.message : Violation → String
  | negativePrice bond => s!"negative price result for bond {bond}"
  | negativeIntegral bond => s!"negative integral result for bond {bond}"
  | negativeReserveDelta bond => s!"negative reserve delta result for bond {bond}"
  | negativeSwapReturn bond => s!"negative return for swap result for bond {bond}"
  | insufficientReserveForBurn required available =>
    s!"not enough reserve available for burn: required {required}, available {available}"
  | negativeSupply bond => s!"negative current supply for bond {bond}"
  | undefinedIntegral family => s!"curve integral is undefined for function type {family}"
  | unrecognizedFamily tag => s!"unrecognized function type: {tag}"

inductive Error
  | wrongParamCount (expected actual : Nat)
  | paramMissing (name : String)
  | duplicateParam (name : String)
  | negativeArgument (name : String)
  | argumentMustBeInteger (name : String)
  | argumentMustBePositive (name : String)
  | notAvailable (family : Family)
  | requiresNonZeroSupply
  | invalidReserveToken (denom : String)
  | wrongReserveCount (expected actual : Nat)
  | reservesNotSorted
  | duplicateDenom (denom : String)
  | orderLimitsInvalid
  | swapTooSmall (sold wanted : String)
  | reserveDepletion (sold wanted : String)
  | invalidFormat (entry : String)
  | feesTooHigh (tx exit : Decimal)
  | invalidMaxSupply (reason : String)
  | maxSupplyExceeded (max wouldHave : Decimal)
  | sellsNotAllowed
  | insufficientSupply (supply burn : Decimal)
  | nonUniformReserves (balances : String)
  | arithmeticOverflow (cause : Overflow)
  | invalidAddress (text : String)
  | unsettledRoot
  | violation (violation : Violation)
deriving DecidableEq

namespace Error

def isFatal : Error → Bool
  | violation _ => true
  | _ => false

def message : Error → String
  | wrongParamCount expected actual =>
    s!"Incorrect number of function parameters: expected {expected}, got {actual}"
  | paramMissing name => s!"Function parameter missing: {name}"
  | duplicateParam name => s!"Duplicate function parameter: {name}"
  | negativeArgument name => s!"Argument cannot be negative: {name}"
  | argumentMustBeInteger name => s!"Argument must be an integer: {name}"
  | argumentMustBePositive name => s!"Argument must be positive: {name}"
  | notAvailable family => s!"Function not available for function type {family}"
  | requiresNonZeroSupply => "Function requires non-zero current supply"
  | invalidReserveToken denom => s!"Token is not a valid reserve token: {denom}"
  | wrongReserveCount expected actual =>
    s!"Incorrect number of reserve tokens: expected {expected}, got {actual}"
  | reservesNotSorted => "Reserve tokens must be sorted and unique"
  | duplicateDenom denom => s!"Duplicate denomination: {denom}"
  | orderLimitsInvalid => "Order quantity limits must be sorted, unique and non-negative"
  | swapTooSmall sold wanted => s!"Swap of {sold} to {wanted} is too small to give any return"
  | reserveDepletion sold wanted =>
    s!"Swap of {sold} to {wanted} would deplete the {wanted} reserve"
  | invalidFormat entry => s!"Invalid function parameter format: {entry}"
  | feesTooHigh tx exit => s!"Fee percentages must add up to less than 100: tx {tx}, exit {exit}"
  | invalidMaxSupply reason => s!"Invalid max supply: {reason}"
  | maxSupplyExceeded max wouldHave =>
    s!"Cannot mint more than max supply: max {max}, would have {wouldHave}"
  | sellsNotAllowed => "Bond does not allow sells"
  | insufficientSupply supply burn => s!"Cannot burn {burn} from a supply of {supply}"
  | nonUniformReserves balances => s!"Reserve balances are not uniform: {balances}"
  | arithmeticOverflow cause => s!"Arithmetic overflow: {cause.message}"
  | invalidAddress text => s!"Invalid address: {text}"
  | unsettledRoot => "geo mean circuit breaker"
  | violation v => s!"Invariant violated: {v.message}"

end Error

instance {α : Type} [DecidableEq α] : DecidableEq (Except Error α)
  | .ok a, .ok b => decidable_of_iff (a = b) (by simp)
  | .error e, .error e' => decidable_of_iff (e = e') (by simp)
  | .ok _, .error _ | .error _, .ok _ => isFalse (by simp)

def refuseIf (p : Prop) [Decidable p] (e : Error) : Except Error Unit :=
  if p then .error e else .ok ()

theorem refuseIf_eq_ok_iff {p : Prop} [Decidable p] {e : Error} {u : Unit} :
    refuseIf p e = .ok u ↔ ¬p := by
  unfold refuseIf
  split <;> simp_all

theorem bind_eq_ok_iff {α β : Type} {x : Except Error α} {f : α → Except Error β} {b : β} :
    x >>= f = .ok b ↔ ∃ a, x = .ok a ∧ f a = .ok b := by
  cases x with
  | ok a => exact ⟨fun h => ⟨a, rfl, h⟩, fun ⟨_, ha, h⟩ => by cases ha; exact h⟩
  | error e => exact ⟨fun h => (by cases h), fun ⟨_, ha, _⟩ => (by cases ha)⟩

end BondingCurve
