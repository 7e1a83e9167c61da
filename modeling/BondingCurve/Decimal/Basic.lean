/-!
# Ninety-six-bit decimals

A decimal is a sign, a mantissa below `2 ^ 96` and a scale of at most 28 fractional digits; it
stands for `± mantissa / 10 ^ scale`. The scale is part of the decimal, so `1.5` and `1.50` are
different decimals of one value, and a zero may carry a sign. Order and `≈` look at values only,
equality looks at the written form.
-/

namespace BondingCurve

-- powers are the core library's whatever else is imported, hence also the types of literal exponents
attribute [local instance (high)] instPowNat

/-- An unsigned decimal, `mantissa / 10 ^ scale`. -/
structure Magnitude where
  mantissa : Nat
  scale : Nat
  mantissa_lt : mantissa < 2 ^ (96 : Nat)
  scale_le : scale ≤ 28
deriving DecidableEq

structure Decimal extends Magnitude where
  negative : Bool
deriving DecidableEq

namespace Magnitude

def of? (mantissa scale : Nat) : Option Magnitude :=
  if h : mantissa < 2 ^ (96 : Nat) ∧ scale ≤ 28 then some ⟨mantissa, scale, h.1, h.2⟩ else none

theorem of?_eq_some_iff {m s : Nat} {x : Magnitude} :
    of? m s = some x ↔ x.mantissa = m ∧ x.scale = s := by
  unfold of?
  split
  · cases x
    simp [eq_comm]
  · rename_i h
    constructor
    · intro hx
      cases hx
    · rintro ⟨rfl, rfl⟩
      exact absurd ⟨x.mantissa_lt, x.scale_le⟩ h

def zero : Magnitude := ⟨0, 0, by decide, by decide⟩

/-- The value under a sign, with the sign of a zero mantissa cleared. -/
def signed (x : Magnitude) (negative : Bool) : Decimal :=
  { x with negative := negative && x.mantissa != 0 }

/-- The value under a sign that even a zero mantissa keeps. -/
def withSign (x : Magnitude) (negative : Bool) : Decimal :=
  { x with negative := negative }

end Magnitude

namespace Decimal

def ofNat (n : Nat) (h : n < 2 ^ (96 : Nat) := by decide) : Decimal :=
  ⟨⟨n, 0, h, by decide⟩, false⟩

instance : OfNat Decimal 0 := ⟨ofNat 0⟩

instance : OfNat Decimal 1 := ⟨ofNat 1⟩

instance : Inhabited Decimal := ⟨0⟩

def two : Decimal := ofNat 2

def hundred : Decimal := ofNat 100

def ofWord (n : UInt64) : Decimal :=
  ofNat n.toNat (Nat.lt_of_lt_of_le n.toNat_lt (by decide))

/-- The mantissa under its sign. -/
def unscaled (x : Decimal) : Int :=
  if x.negative then -(x.mantissa : Int) else x.mantissa

def toRat (x : Decimal) : Rat :=
  (x.unscaled : Rat) / ((10 ^ x.scale : Nat) : Rat)

instance : LE Decimal := ⟨fun x y => x.unscaled * 10 ^ y.scale ≤ y.unscaled * 10 ^ x.scale⟩

instance : LT Decimal := ⟨fun x y => x.unscaled * 10 ^ y.scale < y.unscaled * 10 ^ x.scale⟩

/-- Equality of values: `1.5 ≈ 1.50`, and both zeros are one value. -/
instance : HasEquiv Decimal :=
  ⟨fun x y => x.unscaled * 10 ^ y.scale = y.unscaled * 10 ^ x.scale⟩

instance (x y : Decimal) : Decidable (x ≤ y) :=
  inferInstanceAs (Decidable (x.unscaled * 10 ^ y.scale ≤ y.unscaled * 10 ^ x.scale))

instance (x y : Decimal) : Decidable (x < y) :=
  inferInstanceAs (Decidable (x.unscaled * 10 ^ y.scale < y.unscaled * 10 ^ x.scale))

instance (x y : Decimal) : Decidable (x ≈ y) :=
  inferInstanceAs (Decidable (x.unscaled * 10 ^ y.scale = y.unscaled * 10 ^ x.scale))

def isZero (x : Decimal) : Bool :=
  x.mantissa == 0

theorem not_le_iff_lt {x y : Decimal} : ¬x ≤ y ↔ y < x :=
  Int.not_le

theorem equiv_iff_le_and_le {x y : Decimal} : x ≈ y ↔ x ≤ y ∧ y ≤ x :=
  ⟨fun h => ⟨Int.le_of_eq h, Int.le_of_eq (Eq.symm h)⟩, fun h => Int.le_antisymm h.1 h.2⟩

theorem isZero_iff {x : Decimal} : x.isZero = true ↔ x ≈ 0 := by
  change _ ↔ x.unscaled * 10 ^ (0 : Nat) = 0 * 10 ^ x.scale
  unfold unscaled isZero
  cases x.negative <;> simp

end Decimal

end BondingCurve
