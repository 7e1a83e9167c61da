import BondingCurve.Bond.Guards
import BondingCurve.Bond.Swap

/-!
# The ledger

A ledger holds a bond and the balances of its reserve. A buy, sell or swap asks the bond for a
quote, rounds it to whole units in favour of the reserve where the supply changes, and applies it.
An error leaves the ledger as it was. A balance that overflows is refused after the supply has
been moved.
-/

namespace BondingCurve

structure Ledger where
  bond : Bond
  balances : Coins
deriving DecidableEq

/-- How an order ends that meets no error. -/
inductive Settlement (α : Type)
  | done (receipt : α)
  | orderLimitExceeded
  | balanceOverflow
deriving DecidableEq

structure Purchase where
  paid : Coins
  fees : Coins
deriving DecidableEq

structure Sale where
  returns : Coins
  fees : Coins
deriving DecidableEq

structure Exchange where
  trade : SwapReturn
  /-- The new balances violate the sanity band. -/
  violated : Bool
deriving DecidableEq

structure RoundTrip where
  reserve : Decimal
  paid : Coins
  returned : Coins
deriving DecidableEq

namespace Ledger

def withSupply (l : Ledger) (supply : Decimal) : Ledger :=
  { l with bond := { l.bond with supply := { l.bond.supply with amount := supply } } }

/-- The reserve balances after a movement; `none` when one overflows. Other denominations are
dropped. -/
def moved (l : Ledger) (move : String → Decimal → Option Decimal) : Option (List Coin) :=
  l.bond.reserves.mapM fun denom => do
    return Coin.mk denom (← move denom (l.balances.amountOf denom))

def settle {α : Type} (l : Ledger) (move : String → Decimal → Option Decimal)
    (receipt : Ledger → Logged α) : Logged (Ledger × Settlement α) :=
  match l.moved move with
  | none => return (l, .balanceOverflow)
  | some coins => do
    let after := { l with balances := ← Coins.ofList coins }
    return (after, .done (← receipt after))

def buy (l : Ledger) (amount : Decimal) : Logged (Ledger × Settlement Purchase) := do
  l.bond.checkMaxSupply amount
  if l.bond.LimitsExceeded (.single l.bond.token amount) then
    return (l, .orderLimitExceeded)
  else
    let paid := (← l.bond.pricesToMint amount l.balances).roundUp
    let fees ← l.bond.feesOnTrade paid
    let supply ← l.bond.supply.amount.add amount
    (l.withSupply supply).settle (fun denom old => old.add? (paid.amountOf denom)) fun _ =>
      return ⟨paid, fees⟩

def sell (l : Ledger) (amount : Decimal) : Logged (Ledger × Settlement Sale) := do
  l.bond.ensureSellsAllowed
  let returns := (← l.bond.returnsForBurn amount l.balances).roundDown
  let fees ← l.bond.feesOnExit returns
  let supply ← l.bond.supply.amount.sub amount
  (l.withSupply supply).settle (fun denom old => old.sub? (returns.amountOf denom)) fun _ =>
    return ⟨returns, fees⟩

def swapIn (sold : Coin) (trade : SwapReturn) (denom : String) (old : Decimal) : Option Decimal :=
  if denom = sold.denom then (old.add? sold.amount).bind (·.sub? trade.fee.amount) else some old

def swapOut (wanted : String) (trade : SwapReturn) (denom : String) (held : Decimal) :
    Option Decimal :=
  if denom = wanted then held.sub? trade.returns.amount else some held

/-- Balance movement of a swap, the input before the output. -/
def swapMove (sold : Coin) (wanted : String) (trade : SwapReturn) (denom : String)
    (old : Decimal) : Option Decimal :=
  (swapIn sold trade denom old).bind (swapOut wanted trade denom)

def swap (l : Ledger) (sold : Coin) (wanted : String) : Logged (Ledger × Settlement Exchange) := do
  let trade ← l.bond.returnsForSwap sold wanted l.balances
  l.settle (swapMove sold wanted trade) fun after => do
    return ⟨trade, ← after.bond.violatesSanity after.balances⟩

end Ledger

/-- Quotes a mint of `amount` at a reserve that matches the supply exactly, and then the burn of
the same amount. -/
def Bond.roundTrip (bond : Bond) (amount : Decimal) : Logged RoundTrip := do
  let supply ← bond.currentSupply
  let reserve ← bond.curveIntegral supply
  let paid ← bond.pricesToMint amount (← bond.reserveCoins reserve)
  let after := { bond with supply := { bond.supply with amount := ← supply.add amount } }
  let funded ← reserve.add (bond.commonBalance paid)
  let returned ← after.returnsForBurn amount (← after.reserveCoins funded)
  return ⟨reserve, paid, returned⟩

end BondingCurve
