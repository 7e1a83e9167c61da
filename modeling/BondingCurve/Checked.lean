import BondingCurve.Error
import BondingCurve.Decimal.Division
import BondingCurve.Decimal.Power
import BondingCurve.Decimal.SquareRoot

/-!
# Arithmetic that reports what went wrong

The operations every formula shares: overflow, a zero divisor and the root of a negative number
become errors that name the operation. A root that does not settle ends the call.
-/

namespace BondingCurve.Decimal

def checked (operation : Operation) : Option Decimal → Except Error Decimal
  | some x => .ok x
  | none => .error (.arithmeticOverflow (.arithmetic operation))

theorem checked_eq_ok_iff {operation : Operation} {r : Option Decimal} {x : Decimal} :
    checked operation r = .ok x ↔ r = some x := by
  cases r <;> simp [checked]

def add (x y : Decimal) : Except Error Decimal := checked .add (x.add? y)

def sub (x y : Decimal) : Except Error Decimal := checked .sub (x.sub? y)

def mul (x y : Decimal) : Except Error Decimal := checked .mul (x.mul? y)

/-- Division; a zero divisor counts as overflow. -/
def quo (x y : Decimal) : Except Error Decimal := checked .quo (x.div? y)

def power (x : Decimal) (n : UInt64) : Except Error Decimal := checked .power (x.pow? n.toNat)

def rootWithin (rounds : Nat) (x : Decimal) : Except Error Decimal :=
  match x.sqrtWithin rounds with
  | .settled r => .ok r
  | .unsettled => .error .unsettledRoot
  | .negative => .error (.negativeArgument s!"sqrt of {x}")

def root (x : Decimal) : Except Error Decimal := x.rootWithin roundLimit

/-- The whole part of a non-negative decimal as a word, for the exponent called `name`. -/
def toWord (x : Decimal) (name : String) : Except Error UInt64 :=
  match x.toWord? with
  | some n => .ok n
  | none => .error (.arithmeticOverflow (.word name))

def ensureNonNegative (x : Decimal) (name : String) : Except Error Unit :=
  refuseIf (x < 0) (.negativeArgument name)

end BondingCurve.Decimal
