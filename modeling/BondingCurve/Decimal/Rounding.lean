import BondingCurve.Decimal.Basic

/-!
# Rounding a mantissa

Dropping `k` digits of a mantissa, half to even, is the one rounding rule of the arithmetic. A
result too long for ninety-six bits loses the fewest digits that make it fit. Whole units and the
eighteen-digit grid of amounts are reached in one of two directions instead: toward zero, by cutting
digits off, or toward positive infinity.
-/

namespace BondingCurve

attribute [local instance (high)] instPowNat

/-- The integer nearest to `m / d`; exactly half a unit goes to the even neighbour. -/
def nearestQuotient (m d : Nat) : Nat :=
  if 2 * (m % d) > d ∨ (2 * (m % d) = d ∧ m / d % 2 = 1) then m / d + 1 else m / d

theorem nearestQuotient_one (m : Nat) : nearestQuotient m 1 = m := by
  simp [nearestQuotient, Nat.mod_one]

def roundHalfEven (m k : Nat) : Nat :=
  nearestQuotient m (10 ^ k)

theorem roundHalfEven_zero (m : Nat) : roundHalfEven m 0 = m :=
  nearestQuotient_one m

namespace Magnitude

def fitFrom (mantissa scale k : Nat) : Option Magnitude :=
  if k ≤ scale then
    match of? (roundHalfEven mantissa k) (scale - k) with
    | some x => some x
    | none => fitFrom mantissa scale (k + 1)
  else
    none
termination_by scale + 1 - k

/-- The value `mantissa / 10 ^ scale` with the fewest digits rounded away that make it fit. -/
def fit (mantissa scale : Nat) : Option Magnitude :=
  fitFrom mantissa scale (scale - 28)

def dropZeros (x : Magnitude) : Nat → Magnitude
  | 0 => x
  | n + 1 =>
    if x.scale ≠ 0 ∧ x.mantissa % 10 = 0 then
      dropZeros
        { mantissa := x.mantissa / 10
          scale := x.scale - 1
          mantissa_lt := Nat.lt_of_le_of_lt (Nat.div_le_self _ _) x.mantissa_lt
          scale_le := Nat.le_trans (Nat.sub_le _ _) x.scale_le } n
    else
      x

def cut (x : Magnitude) (k scale : Nat) (h : scale ≤ 28 := by omega) : Magnitude where
  mantissa := x.mantissa / 10 ^ k
  scale := scale
  mantissa_lt := Nat.lt_of_le_of_lt (Nat.div_le_self _ _) x.mantissa_lt
  scale_le := h

/-- The next multiple of the unit above a cut that dropped at least one digit. -/
def cutAbove (x : Magnitude) (k scale : Nat) (hk : k ≠ 0) (h : scale ≤ 28 := by omega) :
    Magnitude where
  mantissa := x.mantissa / 10 ^ k + 1
  scale := scale
  mantissa_lt := by
    have hp : 10 ≤ 10 ^ k := Nat.le_self_pow hk 10
    have hd : x.mantissa / 10 ^ k ≤ x.mantissa / 10 := Nat.div_le_div_left hp (by decide)
    have hx := x.mantissa_lt
    omega
  scale_le := h

end Magnitude

namespace Decimal

/-- The shortest written form of a value: no trailing zeros, and one unsigned zero. -/
def normalize (x : Decimal) : Decimal :=
  if x.isZero then 0 else (x.toMagnitude.dropZeros x.scale).withSign x.negative

def truncateTo (places : Nat) (x : Decimal) (h : places ≤ 28 := by decide) : Decimal :=
  if x.scale ≤ places then x
  else (x.toMagnitude.cut (x.scale - places) places).withSign x.negative

def ceilTo (places : Nat) (x : Decimal) (h : places ≤ 28 := by decide) : Decimal :=
  if hs : x.scale ≤ places then x
  else if x.negative = false ∧ x.mantissa % 10 ^ (x.scale - places) ≠ 0 then
    (x.toMagnitude.cutAbove (x.scale - places) places (by omega)).withSign false
  else
    (x.toMagnitude.cut (x.scale - places) places).withSign x.negative

/-- Fractional digits that every amount leaving the engine has at most. -/
def amountPlaces : Nat := 18

def quantize (x : Decimal) : Decimal :=
  (x.truncateTo amountPlaces).normalize

def quantizeUp (x : Decimal) : Decimal :=
  (x.ceilTo amountPlaces).normalize

def truncateUnits (x : Decimal) : Decimal :=
  x.truncateTo 0 Magnitude.zero.scale_le

def ceilUnits (x : Decimal) : Decimal :=
  x.ceilTo 0 Magnitude.zero.scale_le

def IsInteger (x : Decimal) : Prop :=
  x.truncateUnits ≈ x

instance (x : Decimal) : Decidable x.IsInteger :=
  inferInstanceAs (Decidable (x.truncateUnits ≈ x))

def toWord? (x : Decimal) : Option UInt64 :=
  let n := x.truncateUnits.mantissa
  if x.negative = false ∧ n < 2 ^ (64 : Nat) then some (UInt64.ofNat n) else none

end Decimal

end BondingCurve
