import BondingCurve.Binary64.Basic
import BondingCurve.Text.Digits

/-!
# The shortest decimal text of a binary64 word

A finite word is written in plain notation with the fewest significant digits that still read back
as the word. Of two such texts of one length the nearer to the exact value is taken, and the upper
one when both are equally near.
-/

namespace BondingCurve.Binary64

attribute [local instance (high)] instPowNat

/-- The word's value and the ends of the interval that rounds to it, in quarters of its last bit.
Below a power of two the next word is half as far away, and the ends round to the word as well when
its mantissa is even. -/
structure Interval where
  lower : Nat
  value : Nat
  upper : Nat
  closed : Bool

def Interval.around (mantissa : Nat) (exponent : Int) : Interval where
  lower := 4 * mantissa - (if mantissa = 2 ^ (52 : Nat) ∧ exponent > -1074 then 1 else 2)
  value := 4 * mantissa
  upper := 4 * mantissa + 2
  closed := mantissa % 2 == 0

def Interval.contains (i : Interval) (numerator denominator : Nat) : Bool :=
  if i.closed then i.lower * denominator ≤ numerator && numerator ≤ i.upper * denominator
  else i.lower * denominator < numerator && numerator < i.upper * denominator

def quarters (exponent scale : Int) : Nat × Nat :=
  (10 ^ scale.toNat * 2 ^ (2 - exponent).toNat, 10 ^ (-scale).toNat * 2 ^ (exponent - 2).toNat)

def onGrid (i : Interval) (exponent scale : Int) : Option Nat :=
  let (unit, den) := quarters exponent scale
  let below := i.value * den / unit
  let above := below + 1
  let reads := fun n : Nat => i.contains (n * unit) den
  match reads below, reads above with
  | true, true =>
    if i.value * den - below * unit < above * unit - i.value * den then some below else some above
  | true, false => some below
  | false, true => some above
  | false, false => none

def coarsest (i : Interval) (exponent scale : Int) : Nat → Option (Nat × Int)
  | 0 => none
  | n + 1 =>
    match onGrid i exponent scale with
    | some digits => some (digits, scale)
    | none => coarsest i exponent (scale - 1) n

/-- Digits and decimal exponent of a positive value. Every word is below `10 ^ 309` and a multiple
of `10 ^ -1074`, so some grid in between holds it. -/
def shortestDigits (mantissa : Nat) (exponent : Int) : Option (Nat × Int) :=
  coarsest (.around mantissa exponent) exponent 309 1384

def plainChars (digits : Nat) (scale : Int) : List Char :=
  match scale with
  | .ofNat k => Nat.toDigits 10 (digits * 10 ^ k)
  | .negSucc k =>
    let places := k + 1
    Nat.toDigits 10 (digits / 10 ^ places) ++
      '.' :: Text.padded places (digits % 10 ^ places)

def unsignedChars? (mantissa : Nat) (exponent : Int) : Option (List Char) :=
  if mantissa = 0 then some ['0']
  else (shortestDigits mantissa exponent).map fun (digits, scale) => plainChars digits scale

def shortestChars? : Binary64 → Option (List Char)
  | finite negative mantissa exponent =>
    (unsignedChars? mantissa exponent).map fun cs => if negative then '-' :: cs else cs
  | infinite _ | nan => none

end BondingCurve.Binary64
