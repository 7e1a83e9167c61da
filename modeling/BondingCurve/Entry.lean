import BondingCurve.Coins
import BondingCurve.Params
import BondingCurve.Text.Blank

/-!
# Parameters and coins as they are typed

Parameters are entered as `m:12,n:2,c:100`: entries separated by commas, each split at its first
colon. A coin is entered as an amount and a denomination apart.
-/

namespace BondingCurve

namespace Params

/-- One entry `name:value`, with blanks allowed around either part. -/
def readEntry (entry : List Char) : Option Param :=
  match entry.dropWhile (· != ':') with
  | [] => none
  | _ :: value =>
    let name := Text.trim (entry.takeWhile (· != ':'))
    if name = [] then none
    else (Decimal.read? (Text.trim value)).map fun v => ⟨String.ofList name, v⟩

def entryOf (entry : List Char) : Except Error Param :=
  match readEntry entry with
  | some p => .ok p
  | none => .error (.invalidFormat (String.ofList entry))

/-- Reads a parameter set. Blank text is the empty set, a repeated name keeps its last value, and
the result is ordered by name. The error shows the first entry that cannot be read. -/
def ofString (s : String) : Except Error Params :=
  if Text.trim s.toList = [] then .ok ⟨[]⟩
  else do
    let entries ← (s.toList.splitOn ',').mapM entryOf
    return (Params.mk entries).byName

end Params

namespace Coin

/-- A lower-case letter followed by two to fifteen lower-case letters or digits. -/
def ValidDenom (denom : String) : Prop :=
  (∃ c ∈ denom.toList.head?, c.isLower) ∧ 3 ≤ denom.length ∧ denom.length ≤ 16 ∧
    ∀ c ∈ denom.toList, c.isLower = true ∨ c.isDigit = true

instance (denom : String) : Decidable (ValidDenom denom) :=
  inferInstanceAs (Decidable (_ ∧ _ ∧ _ ∧ ∀ c ∈ denom.toList, _))

def amountOfString (s : String) : Except Error Decimal :=
  match Decimal.read? (Text.trim s.toList) with
  | some value => .ok value
  | none => .error (.invalidFormat s!"invalid coin amount: {s}")

def ofStrings (amount denom : String) : Except Error Coin := do
  refuseIf (¬ValidDenom denom) (.invalidFormat s!"invalid coin denomination: {denom}")
  let value ← amountOfString amount
  value.ensureNonNegative s!"{value}{denom}"
  return ⟨denom, value⟩

end Coin

end BondingCurve
