import BondingCurve.Decimal.Arithmetic

/-!
# Integer powers

Square and multiply, lowest bit of the exponent first. Exponents below 1024 use the ordinary
product; larger ones carry mantissas of up to 192 bits and scales of up to 57 digits through the
loop, so that rounding errors do not pile up, and come back to ninety-six bits at the end. From the
third power on the result is in its shortest written form.
-/

namespace BondingCurve

attribute [local instance (high)] instPowNat

structure WideDecimal where
  negative : Bool
  mantissa : Nat
  scale : Nat

namespace WideDecimal

def topWord (m : Nat) : Nat := m.log2 / 32

structure Shortening where
  mantissa : Nat
  scale : Nat
  dropped : Nat

/-- Drops `count` digits, nine at a time, and then single digits until the mantissa fits words
`0` to `top`. -/
def Shortening.run (top : Nat) (x : Shortening) (count : Nat) : Option Shortening :=
  if _h : x.scale = 0 then
    if count = 0 ∧ topWord x.mantissa ≤ top then some x else none
  else if count = 0 ∧ topWord x.mantissa ≤ top then some x
  else
    let k := min (min (max count 1) 9) x.scale
    run top ⟨x.mantissa / 10 ^ k, x.scale - k, x.mantissa % 10 ^ k⟩ (count - k)
termination_by x.scale

def excessDigits (top maxScale mantissa scale : Nat) : Nat :=
  -- from the excess bits; the scale has to come down in any case
  let estimate :=
    if topWord mantissa ≤ top then 0 else (mantissa.log2 + 1 - 32 * (top + 1)) * 77 / 256 + 1
  max estimate (scale - maxScale)

/-- Rounds up by the last chunk that was dropped, without comparing it to a half: a remainder of
exactly one leaves an even mantissa alone. -/
def Shortening.round (top : Nat) (x : Shortening) : Option (Nat × Nat) :=
  if x.dropped > 1 ∨ (x.dropped = 1 ∧ x.mantissa % 2 = 1) then
    if topWord (x.mantissa + 1) ≤ top then some (x.mantissa + 1, x.scale)
    else if x.scale = 0 then none
    else some ((x.mantissa + 1) / 10, x.scale - 1)
  else
    some (x.mantissa, x.scale)

def shorten (top maxScale mantissa scale : Nat) : Option (Nat × Nat) :=
  let count := excessDigits top maxScale mantissa scale
  if count = 0 then some (mantissa, scale)
  else if count > scale then none
  else do
    let x ← Shortening.run top ⟨mantissa, scale, 0⟩ count
    let (m, s) ← x.round top
    if topWord m ≤ top then some (m, s) else none

def dropDigits (m : Nat) : Nat → Nat
  | 0 => m
  | k + 1 => dropDigits (roundHalfEven m (min (k + 1) 9)) (k + 1 - min (k + 1) 9)
termination_by k => k
decreasing_by omega

def mul? (x y : WideDecimal) : Option WideDecimal :=
  if x.mantissa = 0 ∨ y.mantissa = 0 then some ⟨false, 0, 0⟩
  else
    let negative := x.negative != y.negative
    let mantissa := x.mantissa * y.mantissa
    let scale := x.scale + y.scale
    if mantissa < 2 ^ (192 : Nat) then
      some ⟨negative, dropDigits mantissa (scale - 57), min scale 57⟩
    else
      (shorten 5 57 mantissa scale).map fun (m, s) => ⟨negative, m, s⟩

def ofDecimal (x : Decimal) : WideDecimal := ⟨x.negative, x.mantissa, x.scale⟩

def narrowed (x : WideDecimal) : Option (Nat × Nat) :=
  if x.mantissa < 2 ^ (96 : Nat) ∧ x.scale ≤ 28 then some (x.mantissa, x.scale)
  else shorten 2 28 x.mantissa x.scale

def toDecimal? (x : WideDecimal) : Option Decimal := do
  let (m, s) ← x.narrowed
  return (← Magnitude.of? m s).signed x.negative

end WideDecimal

/-- `acc · base ^ n` by squaring; the base is squared only while bits of the exponent remain. -/
def squareAndMultiply {m : Type → Type} [Monad m] {α : Type} (mul : α → α → m α) (acc base : α)
    (n : Nat) : m α := do
  let acc ← (if n % 2 = 1 then mul acc base else pure acc)
  if n < 2 then return acc
  else squareAndMultiply mul acc (← mul base base) (n / 2)
termination_by n

namespace Decimal

def pow? (x : Decimal) (n : Nat) : Option Decimal :=
  if n = 0 then some 1
  else if x.mantissa = 0 then some 0
  else if x ≈ 1 then some 1
  else if n = 1 then some x
  else if n = 2 then x.mul? x
  else if n < 1024 then
    (squareAndMultiply mul? 1 x n).map normalize
  else
    (squareAndMultiply WideDecimal.mul? (.ofDecimal 1) (.ofDecimal x) n).bind fun w =>
      w.toDecimal?.map normalize

end Decimal

end BondingCurve
