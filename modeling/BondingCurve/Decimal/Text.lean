import BondingCurve.Decimal.Arithmetic
import BondingCurve.Text.Digits

/-!
# Decimal text

A decimal is written in plain notation with exactly `scale` fractional digits. Reading is more
liberal: one sign, digits around at most one point, underscores after the first digit, and a
decimal exponent of at most 28 either way. Digits that do not fit after the point are rounded
away, half up; before the point they are an error. An underscore before the first digit that does
not fit is skipped like any other if the digits so far need more than a machine word; otherwise it
stands for that digit, as a zero.
-/

namespace BondingCurve.Decimal

open Text

attribute [local instance (high)] instPowNat instPowUInt64Nat

def unsignedChars (x : Magnitude) : List Char :=
  let whole := Nat.toDigits 10 (x.mantissa / 10 ^ x.scale)
  if x.scale = 0 then whole
  else whole ++ '.' :: padded x.scale (x.mantissa % 10 ^ x.scale)

def toChars (x : Decimal) : List Char :=
  if x.negative then '-' :: unsignedChars x.toMagnitude else unsignedChars x.toMagnitude

instance : ToString Decimal := ⟨fun x => String.ofList x.toChars⟩

/-- Takes in the first fractional digit that does not fit: five and above rounds up. -/
def roundDigit (mantissa scale digit : Nat) : Option Magnitude :=
  if digit < 5 then Magnitude.of? mantissa scale
  else if mantissa + 1 < 2 ^ (96 : Nat) then Magnitude.of? (mantissa + 1) scale
  else if scale = 0 then none
  else Magnitude.of? ((mantissa + 5) / 10) (scale - 1)

def Ignorable (cs : List Char) : Prop := ∀ c ∈ cs, c.isDigit = true ∨ c = '_'

instance (cs : List Char) : Decidable (Ignorable cs) :=
  inferInstanceAs (Decidable (∀ c ∈ cs, _))

/-- A number below this has room for one more digit in a machine word. -/
def wordRoom : Nat := (2 ^ (64 : Nat) - 1) / 10 - 255

/-- All 28 places are taken, and the last digit came while there was room in a machine word. -/
def FillsWord (mantissa scale : Nat) : Prop := scale = 28 ∧ mantissa / 10 < wordRoom

instance (mantissa scale : Nat) : Decidable (FillsWord mantissa scale) :=
  inferInstanceAs (Decidable (_ ∧ _))

/-- Reads on from a mantissa and scale; the flags say whether the point and a digit were seen. -/
def readUnsigned (mantissa scale : Nat) (point digit : Bool) : List Char → Option Magnitude
  | [] => if digit then Magnitude.of? mantissa scale else none
  | c :: cs =>
    if c.isDigit then
      let m := 10 * mantissa + digitValue c
      let s := if point then scale + 1 else scale
      if m < 2 ^ (96 : Nat) ∧ s ≤ 28 then readUnsigned m s point true cs
      else if point ∧ Ignorable cs then roundDigit mantissa scale (digitValue c)
      else none
    else if c = '.' ∧ point = false then readUnsigned mantissa scale true digit cs
    else if c = '_' ∧ digit then
      if FillsWord mantissa scale then
        if Ignorable cs then roundDigit mantissa scale 0 else none
      else readUnsigned mantissa scale point digit cs
    else none

/-- A number without an exponent. A zero loses its sign and keeps its scale. -/
def readPlain : List Char → Option Decimal
  | '-' :: cs => (readUnsigned 0 0 false false cs).map (·.signed true)
  | '+' :: cs => (readUnsigned 0 0 false false cs).map (·.signed false)
  | cs => (readUnsigned 0 0 false false cs).map (·.signed false)

def readDigits (cs : List Char) : Option Nat :=
  if cs ≠ [] ∧ cs.all Char.isDigit then
    some (ofDigits cs)
  else
    none

def readCount : List Char → Option Nat
  | '+' :: cs => readDigits cs
  | cs => readDigits cs

def shiftLeft (x : Decimal) (k : Nat) : Option Decimal :=
  if k > 28 then none
  else if x.scale + k ≤ 28 then
    (Magnitude.of? x.mantissa (x.scale + k)).map (·.withSign x.negative)
  else
    let dropped := x.scale + k - 28
    let up := if x.mantissa / 10 ^ (dropped - 1) % 10 ≥ 5 then 1 else 0
    (Magnitude.of? (x.mantissa / 10 ^ dropped + up) 28).map (·.withSign x.negative)

/-- Moves the point `k` places to the right; past the last digit the value is multiplied by
`10 ^ 19` at most, and then by what remains. -/
def shiftRight (x : Decimal) (k : Nat) : Option Decimal :=
  if k ≤ x.scale then
    (Magnitude.of? x.mantissa (x.scale - k)).map (·.withSign x.negative)
  else if k > 28 then none
  else if k ≤ 19 then (x.mul? (ofWord (10 ^ k))).map normalize
  else do
    let y ← x.mul? (ofWord (10 ^ (19 : Nat)))
    return (← y.mul? (ofWord (10 ^ (k - 19)))).normalize

def readShift : List Char → Option (Decimal → Option Decimal)
  | '-' :: cs => (readCount cs).map fun k x => x.shiftLeft k
  | cs => (readCount cs).map fun k x => x.shiftRight k

def readScientific (cs : List Char) : Option Decimal := do
  let isMark := fun c : Char => c == 'e' || c == 'E'
  match cs.dropWhile (!isMark ·) with
  | [] => none
  | _ :: exponent => (← readShift exponent) (← readPlain (cs.takeWhile (!isMark ·)))

def read? (cs : List Char) : Option Decimal :=
  (readPlain cs).or (readScientific cs)

def ofString? (s : String) : Option Decimal :=
  read? s.toList

end BondingCurve.Decimal
