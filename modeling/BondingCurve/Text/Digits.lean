/-!
# Decimal digits

The number that a run of decimal digits denotes, and back.
-/

namespace BondingCurve.Text

def digitValue (c : Char) : Nat := c.toNat - '0'.toNat

def ofDigits (cs : List Char) : Nat := cs.foldl (fun n c => 10 * n + digitValue c) 0

/-- The digits of `n`, with zeros in front up to `width` of them. -/
def padded (width n : Nat) : List Char := (Nat.toDigits 10 n).leftpad width '0'

end BondingCurve.Text
