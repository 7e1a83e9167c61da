import BondingCurve.Bond.Basic

/-!
# Fees

A fee is a percentage of an amount, rounded up to eighteen fractional digits.
-/

namespace BondingCurve

/-- `percentage / 100` of an amount, rounded up. -/
def percentageFee (percentage amount : Decimal) : Except Error Decimal := do
  let rate ← percentage.quo .hundred
  return (← rate.mul amount).quantizeUp

def Coin.fee (percentage : Decimal) (coin : Coin) : Except Error Coin := do
  return ⟨coin.denom, ← percentageFee percentage coin.amount⟩

def Coins.fees (percentage : Decimal) (coins : Coins) : Except Error Coins := do
  Coins.ofList (← coins.toList.mapM (Coin.fee percentage))

namespace Bond

/-- The fee on a buy, or on a swap of `coin`. -/
def feeOnTrade (bond : Bond) (coin : Coin) : Except Error Coin := coin.fee bond.txFee

/-- The fee on a sell that returns `coin`. -/
def feeOnExit (bond : Bond) (coin : Coin) : Except Error Coin := coin.fee bond.exitFee

def feesOnTrade (bond : Bond) (coins : Coins) : Except Error Coins := coins.fees bond.txFee

def feesOnExit (bond : Bond) (coins : Coins) : Except Error Coins := coins.fees bond.exitFee

end Bond

end BondingCurve
