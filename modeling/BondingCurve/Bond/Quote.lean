import BondingCurve.Bond.Validation

/-!
# Quotes

What a bond asks for a mint and pays for a burn, given the reserve balances. Amounts are cut to
eighteen fractional digits. A lockstep bond reads the balance of its first reserve token as the
balance of all; a swapper moves every reserve by the same share of its own balance. Negative
arguments are refused, negative results are violations.
-/

namespace BondingCurve.Bond

def minMintPrice : Decimal := 1

def pricesAtSupply (bond : Bond) (supply : Decimal) : Logged Coins := do
  supply.ensureNonNegative "supply"
  let curve ← bond.curve
  let price := (← curve.priceAt supply).quantize
  Logged.violateIf (price < 0) (.negativePrice bond.token)
  let token := bond.token
  Logged.debug s!"Bond {token} price at supply {supply}: {price}"
  bond.reserveCoins price

def integralOf (bond : Bond) (curve : Curve) (supply : Decimal) : Logged Decimal := do
  let integral := (← curve.integral supply).quantize
  Logged.violateIf (integral < 0) (.negativeIntegral bond.token)
  return integral

def curveIntegral (bond : Bond) (supply : Decimal) : Logged Decimal := do
  supply.ensureNonNegative "supply"
  bond.integralOf (← bond.curve) supply

def reserveShare (bond : Bond) (share balance : Decimal) : Logged Decimal := do
  let amount := (← share.mul balance).quantize
  Logged.violateIf (amount < 0) (.negativeReserveDelta bond.token)
  return amount

/-- Reserve amounts that go with a change of `delta` in a swapper's supply: each reserve moves by
`delta / supply` of its balance. -/
def reserveDelta (bond : Bond) (delta : Decimal) (balances : Coins) : Logged Coins := do
  delta.ensureNonNegative "liquidity delta"
  balances.ensureNonNegative "reserve balances"
  refuseIf (bond.family ≠ .swapper) (.notAvailable bond.family)
  refuseIf (bond.reserves.length ≠ 2) (.wrongReserveCount 2 bond.reserves.length)
  let supply ← bond.currentSupply
  refuseIf (supply.isZero = true) .requiresNonZeroSupply
  let share ← delta.quo supply
  let deltas ← bond.reserves.mapM fun denom => do
    return Coin.mk denom (← bond.reserveShare share (balances.amountOf denom))
  Coins.ofList deltas

/-- What a lockstep curve asks to bring the reserve up to the integral `target`. -/
def depositFor (bond : Bond) (target reserve : Decimal) : Logged Decimal := do
  let price := (← target.sub reserve).quantize
  if price < 0 then
    let token := bond.token
    Logged.debug (s!"Bond {token} reserve {reserve} exceeds integral {target}, " ++
      "charging minimum mint price")
    return minMintPrice
  else return price

def augmentedDeposit (bond : Bond) (k : Augmented.Constants) (mint reserve supply : Decimal) :
    Logged Decimal := do
  let (deposit, _) := Augmented.mint mint.toFloat reserve.toFloat supply.toFloat k.kappa k.v0
  let price := (← Decimal.ofFloat deposit "augmented mint").quantize
  Logged.violateIf (price < 0) (.negativePrice bond.token)
  return price

def quoteMint (bond : Bond) (mint supply price : Decimal) : Logged Coins := do
  let token := bond.token
  Logged.debug s!"Bond {token} mint {mint} at supply {supply}: price {price}"
  bond.reserveCoins price

def pricesToMint (bond : Bond) (mint : Decimal) (balances : Coins) : Logged Coins := do
  mint.ensureNonNegative "mint amount"
  balances.ensureNonNegative "reserve balances"
  let supply ← bond.currentSupply
  let curve ← bond.curve
  let reserve := bond.commonBalance balances
  match curve with
  | .power .. | .sigmoid .. =>
    let target ← bond.integralOf curve (← supply.add mint)
    bond.quoteMint mint supply (← bond.depositFor target reserve)
  | .augmented d0 p0 theta kappa =>
    let k ← Curve.constants d0 p0 theta kappa
    bond.quoteMint mint supply (← bond.augmentedDeposit k mint reserve supply)
  | .swapper =>
    refuseIf (supply.isZero = true) .requiresNonZeroSupply
    bond.reserveDelta mint balances

def payoutFor (remaining reserve : Decimal) : Logged Decimal := do
  Logged.violateIf (reserve < remaining) (.insufficientReserveForBurn remaining reserve)
  return (← reserve.sub remaining).quantize

def augmentedPayout (bond : Bond) (k : Augmented.Constants) (burn reserve supply : Decimal) :
    Logged Decimal := do
  let (released, _) := Augmented.withdraw burn.toFloat reserve.toFloat supply.toFloat k.kappa k.v0
  let payout := (← Decimal.ofFloat released "augmented withdraw").quantize
  Logged.violateIf (payout < 0) (.negativeReserveDelta bond.token)
  return payout

def quoteBurn (bond : Bond) (burn supply payout : Decimal) : Logged Coins := do
  let token := bond.token
  Logged.debug s!"Bond {token} burn {burn} at supply {supply}: returns {payout}"
  bond.reserveCoins payout

def returnsForBurn (bond : Bond) (burn : Decimal) (balances : Coins) : Logged Coins := do
  burn.ensureNonNegative "burn amount"
  balances.ensureNonNegative "reserve balances"
  let supply ← bond.currentSupply
  let curve ← bond.curve
  refuseIf (supply < burn) (.insufficientSupply supply burn)
  let reserve := bond.commonBalance balances
  match curve with
  | .power .. | .sigmoid .. =>
    let remaining ← bond.integralOf curve (← supply.sub burn)
    bond.quoteBurn burn supply (← payoutFor remaining reserve)
  | .augmented d0 p0 theta kappa =>
    let k ← Curve.constants d0 p0 theta kappa
    bond.quoteBurn burn supply (← bond.augmentedPayout k burn reserve supply)
  | .swapper => bond.reserveDelta burn balances

/-- Price of one token now: a swapper quotes the reserves that mint one token, any other family
its spot price. -/
def currentPrices (bond : Bond) (balances : Coins) : Logged Coins :=
  if bond.family = .swapper then bond.pricesToMint 1 balances
  else do bond.pricesAtSupply (← bond.currentSupply)

end BondingCurve.Bond
