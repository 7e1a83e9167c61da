/-!
# The exact value of a binary64 word

Sixty-four bits hold a sign, eleven bits of exponent and fifty-two bits of fraction. A finite word
is `± mantissa * 2 ^ exponent` for a natural mantissa below `2 ^ 53`.
-/

namespace BondingCurve

attribute [local instance (high)] instPowNat

inductive Binary64
  | finite (negative : Bool) (mantissa : Nat) (exponent : Int)
  | infinite (negative : Bool)
  | nan
deriving DecidableEq

namespace Binary64

def ofBits (bits : UInt64) : Binary64 :=
  let n := bits.toNat
  let negative : Bool := 2 ^ (63 : Nat) ≤ n
  let exponent : Nat := n / 2 ^ (52 : Nat) % 2 ^ (11 : Nat)
  let fraction := n % 2 ^ (52 : Nat)
  if exponent = 2047 then if fraction = 0 then infinite negative else nan
  else if exponent = 0 then finite negative fraction (-1074)
  else finite negative (2 ^ (52 : Nat) + fraction) ((exponent : Int) - 1075)

def ofFloat (x : Float) : Binary64 := ofBits x.toBits

/-- The exact rational behind a finite word. -/
def toRat? : Binary64 → Option Rat
  | finite negative m e =>
    let magnitude : Rat := m * (2 : Rat) ^ e
    some (if negative then -magnitude else magnitude)
  | infinite _ | nan => none

/-- Numerator and denominator of `mantissa * 2 ^ exponent`. -/
def fraction (mantissa : Nat) (exponent : Int) : Nat × Nat :=
  match exponent with
  | .ofNat e => (mantissa * 2 ^ e, 1)
  | .negSucc e => (mantissa, 2 ^ (e + 1))

end Binary64

end BondingCurve
