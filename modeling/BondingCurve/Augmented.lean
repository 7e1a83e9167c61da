/-!
# Augmented bonding curves

The curve holds `S ^ κ / R` constant between supply `S` and reserve `R`. Its constant `V0` comes
from the hatch: `d0` raised at price `p0`, of which a share `θ` goes to the funding pool. All
formulas are evaluated in floating point, from left to right.
-/

namespace BondingCurve.Augmented

def invariant (reserve supply kappa : Float) : Float :=
  supply.pow kappa / reserve

def initialInvariant (d0 p0 theta kappa : Float) : Float :=
  invariant (d0 * (1 - theta)) (d0 / p0) kappa

def reserveAt (supply kappa v0 : Float) : Float :=
  supply.pow kappa / v0

/-- `κ · R ^ ((κ - 1) / κ) / V0 ^ (1 / κ)`. -/
def spotPrice (reserve kappa v0 : Float) : Float :=
  kappa * reserve.pow ((kappa - 1) / kappa) / v0.pow (1 / kappa)

/-- What minting `amount` moves into the reserve, and the price per token realised. -/
def mint (amount reserve supply kappa v0 : Float) : Float × Float :=
  let deposit := (supply + amount).pow kappa / v0 - reserve
  (deposit, deposit / amount)

def withdraw (amount reserve supply kappa v0 : Float) : Float × Float :=
  let released := reserve - (supply - amount).pow kappa / v0
  (released, released / amount)

end BondingCurve.Augmented
