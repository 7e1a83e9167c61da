import BondingCurve.Augmented
import BondingCurve.Decimal.Binary64
import BondingCurve.Logged
import BondingCurve.Params

/-!
# Curves and their closed forms

| family    | spot price at `x`                      | reserve behind `x`                        |
|-----------|----------------------------------------|-------------------------------------------|
| power     | `m xⁿ + c`                             | `m xⁿ⁺¹ / (n + 1) + c x`                  |
| sigmoid   | `a ((x - b) / √((x - b)² + c) + 1)`    | `a (√((x - b)² + c) + x) - a √(b² + c)`   |
| augmented | the float formulas at `x`              | the float formulas at `x`                 |
| swapper   | none: prices come from its reserves    | undefined, and asking is a violation      |

Values are returned as the arithmetic leaves them; the bond rounds them to amounts.
-/

namespace BondingCurve

inductive Curve
  | power (m : Decimal) (n : UInt64) (c : Decimal)
  | sigmoid (a b c : Decimal)
  | swapper
  | augmented (d0 p0 theta kappa : Decimal)
deriving DecidableEq

/-- The two constants of the augmented float formulas. -/
structure Augmented.Constants where
  kappa : Float
  v0 : Float

namespace Curve

def family : Curve → Family
  | power .. => .power
  | sigmoid .. => .sigmoid
  | swapper => .swapper
  | augmented .. => .augmented

def ofParams (family : Family) (params : Params) : Except Error Curve := do
  params.validate family
  match family with
  | .power =>
    let m ← params.valueOf "m"
    let n ← (← params.valueOf "n").toWord "n"
    return power m n (← params.valueOf "c")
  | .sigmoid =>
    return sigmoid (← params.valueOf "a") (← params.valueOf "b") (← params.valueOf "c")
  | .swapper => return swapper
  | .augmented =>
    return augmented (← params.valueOf "d0") (← params.valueOf "p0") (← params.valueOf "theta")
      (← params.valueOf "kappa")

/-- The constants of an augmented curve; a hatch without a finite invariant is an overflow. -/
def constants (d0 p0 theta kappa : Decimal) : Except Error Augmented.Constants :=
  let k := kappa.toFloat
  let v0 := Augmented.initialInvariant d0.toFloat p0.toFloat theta.toFloat k
  if v0.isFinite && k.isFinite then .ok ⟨k, v0⟩
  else .error (.arithmeticOverflow .augmentedInvariant)

/-- `√((x - b)² + c)`, with the difference it was made from. -/
def sigmoidRoot (x b c : Decimal) : Except Error (Decimal × Decimal) := do
  let shifted ← x.sub b
  let radicand ← (← shifted.mul shifted).add c
  return (shifted, ← radicand.root)

/-- Spot price at supply `x`. -/
def priceAt (x : Decimal) : Curve → Except Error Decimal
  | power m n c => do (← (← x.power n).mul m).add c
  | sigmoid a b c => do
    let (shifted, root) ← sigmoidRoot x b c
    let ratio ← shifted.quo root
    a.mul (← ratio.add 1)
  | augmented d0 p0 theta kappa => do
    let k ← constants d0 p0 theta kappa
    let reserve := Augmented.reserveAt x.toFloat k.kappa k.v0
    Decimal.ofFloat (Augmented.spotPrice reserve k.kappa k.v0) "augmented spot price"
  | swapper => .error (.notAvailable .swapper)

def powerIntegral (m : Decimal) (n : UInt64) (c x : Decimal) : Except Error Decimal := do
  refuseIf (n.toNat + 1 = UInt64.size) (.arithmeticOverflow .powerExponent)
  let scaled ← (← x.power (n + 1)).mul m
  let area ← scaled.quo (.ofWord (n + 1))
  area.add (← x.mul c)

def sigmoidIntegral (a b c x : Decimal) : Except Error Decimal := do
  let (_, root) ← sigmoidRoot x b c
  let upper ← a.mul (← root.add x)
  let origin ← (← (← b.mul b).add c).root
  upper.sub (← a.mul origin)

/-- Reserve required to back supply `x`. -/
def integral (x : Decimal) : Curve → Logged Decimal
  | power m n c => powerIntegral m n c x
  | sigmoid a b c => sigmoidIntegral a b c x
  | augmented d0 p0 theta kappa => do
    let k ← constants d0 p0 theta kappa
    Decimal.ofFloat (Augmented.reserveAt x.toFloat k.kappa k.v0) "augmented reserve"
  | swapper => .violate (.undefinedIntegral .swapper)

end Curve

end BondingCurve
