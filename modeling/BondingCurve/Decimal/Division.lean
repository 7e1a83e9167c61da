import BondingCurve.Decimal.Rounding

/-!
# Quotients

Long division in chunks of up to nine digits: the quotient is extended until the division is
exact, or until neither the scale nor the ninety-six bits leave room for another digit, when the
last digit is rounded half to even. A quotient that needed fractional digits sheds trailing zeros
in groups of eight, four, two and one, as far as the powers of two in it allow, so `1 / 2` is
written `0.50`.
-/

namespace BondingCurve.Decimal

attribute [local instance (high)] instPowNat

/-- The most digits, nine at most, by which a quotient can grow. Here and below `room` is how many
more fractional digits the scale admits, so the scale is `28 - room`. -/
def extension (quotient room : Nat) : Nat → Nat
  | 0 => 0
  | x + 1 =>
    if x + 1 ≤ room ∧ quotient * 10 ^ (x + 1) < 2 ^ (96 : Nat) then x + 1 else extension quotient room x

theorem extension_le_room (q room n : Nat) : extension q room n ≤ room := by
  induction n with
  | zero => exact Nat.zero_le _
  | succ n ih =>
    unfold extension
    split
    · rename_i h
      exact h.1
    · exact ih

def shedDigit (quotient scale : Nat) (sticky : Bool) : Option (Nat × Nat) :=
  if scale = 0 then none
  else
    let q := quotient / 10
    let d := quotient % 10
    -- a half goes up as well where the division had more digits to give
    some (if d > 5 ∨ (d = 5 ∧ (sticky ∨ q % 2 = 1)) then q + 1 else q, scale - 1)

def roundQuotient (divisor quotient remainder scale : Nat) : Option (Nat × Nat) :=
  if 2 * remainder > divisor ∨ (2 * remainder = divisor ∧ quotient % 2 = 1) then
    if quotient + 1 < 2 ^ (96 : Nat) then some (quotient + 1, scale)
    else shedDigit (quotient + 1) scale true
  else
    some (quotient, scale)

def padQuotient (quotient room : Nat) : Option (Nat × Nat) :=
  if room ≤ 28 then some (quotient, 28 - room)
  else
    let q := quotient * 10 ^ (room - 28)
    if q < 2 ^ (96 : Nat) then some (q, 0) else none

/-- Mantissa and scale of the quotient, and whether it needed digits beyond the whole division. -/
def longDivision (divisor quotient remainder room : Nat) (extended : Bool) :
    Option ((Nat × Nat) × Bool) :=
  if remainder = 0 then (padQuotient quotient room).map (·, extended)
  else
    let x := extension quotient room 9
    if x < 9 ∧ x + 28 < room then none
    else if h : x = 0 then
      (roundQuotient divisor quotient remainder (28 - room)).map (·, true)
    else
      let q := quotient * 10 ^ x + remainder * 10 ^ x / divisor
      let r := remainder * 10 ^ x % divisor
      if q < 2 ^ (96 : Nat) then longDivision divisor q r (room - x) true
      else if room - x ≤ 28 then (shedDigit q (28 - (room - x)) (r != 0)).map (·, true)
      else none
termination_by room
decreasing_by
  have := extension_le_room quotient room 9
  omega

def shedZeros (digits twos : Nat) : Nat → Nat × Nat → Nat × Nat
  | 0, x => x
  | n + 1, (m, s) =>
    if m % 2 ^ twos = 0 ∧ digits ≤ s ∧ m % 10 ^ digits = 0 then
      shedZeros digits twos n (m / 10 ^ digits, s - digits)
    else
      (m, s)

def trimQuotient (x : Nat × Nat) : Nat × Nat :=
  shedZeros 1 1 1 (shedZeros 2 2 1 (shedZeros 4 4 1 (shedZeros 8 32 3 x)))

def div? (x y : Decimal) : Option Decimal := do
  if y.mantissa = 0 then none
  else if x.mantissa = 0 then some 0
  else
    let (written, extended) ← longDivision y.mantissa (x.mantissa / y.mantissa)
      (x.mantissa % y.mantissa) (28 + y.scale - x.scale) false
    let (mantissa, scale) := if extended then trimQuotient written else written
    return (← Magnitude.of? mantissa scale).signed (x.negative != y.negative)

end BondingCurve.Decimal
