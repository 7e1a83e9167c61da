import BondingCurve.Bond.Fees
import BondingCurve.Bond.Quote

/-!
# Swaps

A swapper trades one reserve token for the other along the curve of constant product: an input `i`
after the fee takes `i · out / (in + i)` from the reserve `out`. A swap that would return nothing,
or the whole reserve, is refused.
-/

namespace BondingCurve

structure SwapReturn where
  fee : Coin
  returns : Coin
deriving DecidableEq

namespace Bond

/-- `input · outReserve / (inReserve + input)`, as an amount. -/
def constantProductOutput (input inReserve outReserve : Decimal) : Except Error Decimal := do
  let product ← input.mul outReserve
  return (← product.quo (← inReserve.add input)).quantize

def returnsForSwap (bond : Bond) (sold : Coin) (wanted : String) (balances : Coins) :
    Logged SwapReturn := do
  sold.amount.ensureNonNegative "swap amount"
  balances.ensureNonNegative "reserve balances"
  refuseIf (bond.family ≠ .swapper) (.notAvailable bond.family)
  refuseIf (¬bond.IsReserve sold.denom) (.invalidReserveToken sold.denom)
  refuseIf (¬bond.IsReserve wanted) (.invalidReserveToken wanted)
  let inReserve := balances.amountOf sold.denom
  let outReserve := balances.amountOf wanted
  let fee ← bond.feeOnTrade sold
  let input ← sold.amount.sub fee.amount
  refuseIf (input ≤ 0) (.swapTooSmall (toString sold) wanted)
  let output ← constantProductOutput input inReserve outReserve
  refuseIf (output ≈ outReserve) (.reserveDepletion (toString sold) wanted)
  refuseIf (output.isZero = true) (.swapTooSmall (toString sold) wanted)
  Logged.violateIf (output < 0) (.negativeSwapReturn bond.token)
  let token := bond.token
  Logged.debug s!"Bond {token} swap {sold} -> {output}{wanted} (fee {fee})"
  return ⟨fee, ⟨wanted, output⟩⟩

end Bond

end BondingCurve
