import BondingCurve.Binary64.Basic
import BondingCurve.Checked

/-!
# Between decimals and floats

Only the augmented family leaves decimal arithmetic. On the way out the fraction is divided in
floating point and the sum rounded back to `scale` digits; on the way back the exact binary value
is rounded to six fractional digits, half to even, and read as decimal text.
-/

namespace BondingCurve

attribute [local instance (high)] instPowNat

namespace Decimal

def floatPowerOfTen (scale : Nat) : Float :=
  Id.run (squareAndMultiply (fun x y => pure (x * y)) 1 10 scale)

def toFloat (x : Decimal) : Float :=
  let signed := fun magnitude : Float => if x.negative then -magnitude else magnitude
  if x.scale = 0 then
    if x.mantissa = 0 then 0 else signed (Float.ofNat x.mantissa)
  else
    let unit := 10 ^ x.scale
    let whole := Float.ofNat (x.mantissa / unit)
    let fraction := Float.ofNat (x.mantissa % unit) / Float.ofNat unit
    if fraction == 0 then signed whole
    else
      let power := floatPowerOfTen x.scale
      signed (((whole + fraction) * power).round / power)

end Decimal

namespace Binary64

/-- The multiple of `10 ^ -6` nearest to `mantissa * 2 ^ exponent`, in units of `10 ^ -6`. -/
def micros (mantissa : Nat) (exponent : Int) : Nat :=
  let (n, d) := fraction mantissa exponent
  nearestQuotient (n * 10 ^ (6 : Nat)) d

/-- A number of millionths with six fractional digits; a zero keeps its sign. -/
def microChars (negative : Bool) (micros : Nat) : List Char :=
  let chars := Nat.toDigits 10 (micros / 10 ^ (6 : Nat)) ++
    '.' :: Text.padded 6 (micros % 10 ^ (6 : Nat))
  if negative then '-' :: chars else chars

def toDecimal (x : Binary64) (operation : String) : Except Error Decimal :=
  match x with
  | finite negative mantissa exponent =>
    let chars := microChars negative (micros mantissa exponent)
    match Decimal.read? chars with
    | some d => .ok d
    | none => .error (.arithmeticOverflow (.outOfRange operation (String.ofList chars)))
  | infinite _ | nan => .error (.arithmeticOverflow (.notFinite operation))

end Binary64

def Decimal.ofFloat (x : Float) (operation : String) : Except Error Decimal :=
  (Binary64.ofFloat x).toDecimal operation

end BondingCurve
