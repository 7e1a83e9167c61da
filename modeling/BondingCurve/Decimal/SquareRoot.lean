import BondingCurve.Decimal.Arithmetic
import BondingCurve.Decimal.Division

/-!
# Square roots

Newton's iteration from half the argument, until a round leaves the value as it is. Each round
takes two rounded quotients and a rounded sum, so the root is approximate. It need not settle: where
the last digit changes its place the rounds may go to and fro between two neighbours for ever.
After 999 rounds an assertion gives the iteration up.
-/

namespace BondingCurve.Decimal

inductive Root
  | settled (r : Decimal)
  | unsettled
  | negative
deriving DecidableEq

def Root.ofIteration : Option Decimal → Root
  | some r => settled r
  | none => unsettled

def rootRound (x r : Decimal) : Option Decimal := do
  (← r.add? (← x.div? r)).div? two

/-- Rounds until the value repeats; `none` if it has not when they are used up. -/
def rootFrom (x r : Decimal) : Nat → Option Decimal
  | 0 => none
  | n + 1 => (rootRound x r).bind fun r' => if r' ≈ r then some r' else rootFrom x r' n

/-- Half of `x`, or `x` itself when a half is too small to be written. -/
def rootSeed (x : Decimal) : Option Decimal := do
  let half ← x.div? two
  return if half.isZero then x else half

def rootIteration (rounds : Nat) (x : Decimal) : Option Decimal := do
  rootFrom x (← rootSeed x) rounds

def sqrtWithin (rounds : Nat) (x : Decimal) : Root :=
  if x.negative then .negative
  else if x.isZero then .settled 0
  else .ofIteration (x.rootIteration rounds)

def roundLimit : Nat := 999

end BondingCurve.Decimal
