import BondingCurve.Decimal.Rounding

/-!
# Sums, differences and products

The exact result is formed on unbounded integers and then fitted into ninety-six bits; `none` is
overflow. A zero operand of a sum hands back the other operand as it is written, and a product
with a zero factor is the plain `0`.
-/

namespace BondingCurve.Decimal

attribute [local instance (high)] instPowNat

def unscaledAt (x : Decimal) (scale : Nat) : Int :=
  x.unscaled * 10 ^ (scale - x.scale)

/-- The decimal nearest to the exact integer `v` of units `10 ^ -scale`. -/
def ofUnscaled (v : Int) (scale : Nat) : Option Decimal :=
  (Magnitude.fit v.natAbs scale).map (·.signed (v < 0))

def negate (x : Decimal) : Decimal :=
  { x with negative := !x.negative }

def add? (x y : Decimal) : Option Decimal :=
  if x.mantissa = 0 then some y
  else if y.mantissa = 0 then some x
  else
    let scale := max x.scale y.scale
    ofUnscaled (x.unscaledAt scale + y.unscaledAt scale) scale

def sub? (x y : Decimal) : Option Decimal :=
  if x.mantissa = 0 then some (if y.mantissa = 0 then y else y.negate)
  else if y.mantissa = 0 then some x
  else
    let scale := max x.scale y.scale
    ofUnscaled (x.unscaledAt scale - y.unscaledAt scale) scale

/-- Both mantissas fit half a machine word, so their product fits a whole one. -/
def Short (x y : Decimal) : Prop :=
  x.mantissa < 2 ^ (32 : Nat) ∧ y.mantissa < 2 ^ (32 : Nat)

instance (x y : Decimal) : Decidable (Short x y) :=
  inferInstanceAs (Decidable (_ ∧ _))

/-- A product of short mantissas clears the sign of a zero, and its scale too when more than
nineteen digits would have to go; any other product keeps both. -/
def mul? (x y : Decimal) : Option Decimal :=
  if x.mantissa = 0 ∨ y.mantissa = 0 then some 0
  else
    let scale := x.scale + y.scale
    let negative := x.negative != y.negative
    if Short x y then
      if scale > 47 then some 0
      else (Magnitude.fit (x.mantissa * y.mantissa) scale).map (·.signed negative)
    else
      (Magnitude.fit (x.mantissa * y.mantissa) scale).map (·.withSign negative)

end BondingCurve.Decimal
