import BondingCurve.Binary64.Shortest
import BondingCurve.Decimal.Text

/-!
# JSON values

A value keeps its members in the order of the text, and a number keeps the digits of its fraction.
`unreadable` stands for text that is well-formed but denotes nothing, because a string in it
escapes half of a surrogate pair: it may be skipped and cannot be read.
-/

namespace BondingCurve

attribute [local instance (high)] instPowNat

structure Json.Number where
  negative : Bool
  whole : Nat
  fraction : List (Fin 10)
  exponent : Option Int
deriving DecidableEq

inductive Json
  | null
  | bool (b : Bool)
  | number (n : Json.Number)
  | text (s : String)
  | array (items : List Json)
  | object (members : List (String × Json))
  | unreadable

namespace Json

def ofNat (n : Nat) : Json := number ⟨false, n, [], none⟩

def ofDecimal (x : Decimal) : Json := text (toString x)

namespace Number

def IsInteger (n : Number) : Prop := n.fraction = [] ∧ n.exponent = none

instance (n : Number) : Decidable n.IsInteger := inferInstanceAs (Decidable (_ ∧ _))

/-- A natural number below `2 ^ 64`, written without sign, fraction or exponent. -/
def toWord? (n : Number) : Option UInt64 :=
  if n.IsInteger ∧ n.negative = false ∧ n.whole < 2 ^ (64 : Nat) then some (UInt64.ofNat n.whole) else none

/-- Takes in digits while the number stays below `2 ^ 64`, and counts those left. -/
def takeDigits (taken : Nat) : List Nat → Nat × Nat
  | [] => (taken, 0)
  | d :: ds =>
    if 10 * taken + d < 2 ^ (64 : Nat) then takeDigits (10 * taken + d) ds else (taken, ds.length + 1)

/-- `significand * 10 ^ exponent` with one rounding per floating-point step; `none` above the
range. -/
def scaled (significand : Nat) (exponent : Int) : Option Float :=
  let x := Float.ofNat significand
  let power := fun k : Nat => Float.ofNat (10 ^ k)
  if significand = 0 then some 0
  else if 308 < exponent then none
  else if 0 ≤ exponent then
    let y := x * power exponent.toNat
    if y.isInf then none else some y
  else if -308 ≤ exponent then some (x / power (-exponent).toNat)
  else if -616 ≤ exponent then some (x / power 308 / power (-exponent - 308).toNat)
  else some 0

/-- The double a number is read as: the digits that fit a machine word, scaled. -/
def toFloat? (n : Number) : Option Float := do
  let (taken, left) := takeDigits 0 ((Nat.toDigits 10 n.whole).map Text.digitValue)
  let (significand, dropped) := takeDigits taken (n.fraction.map (·.val))
  let places := n.fraction.length - dropped
  let x ← scaled significand ((left : Int) - places + n.exponent.getD 0)
  return if n.negative then -x else x

/-- An integer that a machine word holds is exact; any other number goes through its double, whose
shortest decimal text is read. -/
def toDecimal? (n : Number) : Option Decimal :=
  if h : n.IsInteger ∧ n.negative = false ∧ n.whole < 2 ^ (64 : Nat) then
    some (.ofNat n.whole (Nat.lt_trans h.2.2 (by decide)))
  else if h : n.IsInteger ∧ n.negative = true ∧ 0 < n.whole ∧ n.whole ≤ 2 ^ (63 : Nat) then
    some (Decimal.ofNat n.whole (Nat.lt_of_le_of_lt h.2.2.2 (by decide))).negate
  else do
    Decimal.read? (← (Binary64.ofFloat (← n.toFloat?)).shortestChars?)

end Number

def toBool? : Json → Option Bool
  | bool b => some b
  | _ => none

def toText? : Json → Option String
  | text s => some s
  | _ => none

def toWord? : Json → Option UInt64
  | number n => n.toWord?
  | _ => none

def toDecimal? : Json → Option Decimal
  | text s => Decimal.ofString? s
  | number n => n.toDecimal?
  | _ => none

def toList? {α : Type} (item : Json → Option α) : Json → Option (List α)
  | array items => items.mapM item
  | _ => none

/-- The values of the named fields, in order. An object gives each name exactly once, among others
that are ignored; an array lists the values themselves. -/
def fields? (names : List String) : Json → Option (List Json)
  | object members => names.mapM fun name =>
    match members.filter (·.1 == name) with
    | [(_, value)] => some value
    | _ => none
  | array items => if items.length = names.length then some items else none
  | _ => none

end Json

end BondingCurve
