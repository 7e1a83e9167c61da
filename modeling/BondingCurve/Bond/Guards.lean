import BondingCurve.Bond.Basic

/-!
# Guards around a trade

Checks that the ledger makes before or after a quote: the supply cap, the permission to sell, the
order limits, and the sanity band for the ratio of two reserves.
-/

namespace BondingCurve.Bond

def checkMaxSupply (bond : Bond) (mint : Decimal) : Logged Unit := do
  let wouldHave ← (← bond.currentSupply).add mint
  refuseIf (bond.maxSupply.amount < wouldHave) (.maxSupplyExceeded bond.maxSupply.amount wouldHave)

def ensureSellsAllowed (bond : Bond) : Except Error Unit :=
  refuseIf (bond.allowSells = false) .sellsNotAllowed

def LimitsExceeded (bond : Bond) (order : Coins) : Prop := order.Exceeds bond.orderLimits

instance (bond : Bond) (order : Coins) : Decidable (bond.LimitsExceeded order) :=
  inferInstanceAs (Decidable (order.Exceeds bond.orderLimits))

/-- `rate ± margin percent of rate`, with the lower end clamped at zero. -/
def sanityBand (bond : Bond) : Except Error (Decimal × Decimal) := do
  let margin ← bond.sanityRate.mul (← bond.sanityMargin.quo .hundred)
  let upper ← bond.sanityRate.add margin
  let lower ← bond.sanityRate.sub margin
  return (if lower < 0 then 0 else lower, upper)

def ratioOutsideBand (bond : Bond) (first second : Decimal) : Logged Bool :=
  if second.isZero then return true
  else do
    let rate ← first.quo second
    let (lower, upper) ← bond.sanityBand
    let token := bond.token
    Logged.debug s!"Sanity check for bond {token}: rate {rate} bounds [{lower}, {upper}]"
    return rate < lower || upper < rate

def sanityFailed (bond : Bond) (e : Error) : Logged Bool := do
  let token := bond.token
  let reason := e.message
  Logged.warn s!"Sanity rate check for bond {token} failed: {reason}"
  return true

def sanityInapplicable (bond : Bond) : Logged Bool := do
  let token := bond.token
  let count := bond.reserves.length
  Logged.debug s!"Sanity rate not applicable to bond {token} with {count} reserve tokens"
  return false

/-- Whether the ratio of the two reserves violates the sanity band. A zero rate turns the check
off and so does any other number of reserves; a failed computation counts as a violation. -/
def violatesSanity (bond : Bond) (balances : Coins) : Logged Bool :=
  if bond.sanityRate.isZero then return false
  else
    match bond.reserves with
    | [first, second] =>
      (bond.ratioOutsideBand (balances.amountOf first) (balances.amountOf second)).recover
        bond.sanityFailed
    | _ => bond.sanityInapplicable

end BondingCurve.Bond
