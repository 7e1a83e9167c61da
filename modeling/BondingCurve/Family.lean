/-!
# Curve families

Four families of bonding curve. A family fixes the names of its parameters and how many reserve
tokens back a bond of it. All but the swapper keep every reserve token at one common balance.
-/

namespace BondingCurve

inductive Family
  | power
  | sigmoid
  | swapper
  | augmented
deriving DecidableEq

inductive ReserveCount
  | any
  | exactly (n : Nat)
deriving DecidableEq

/-- `any` still asks for one token at least. -/
def ReserveCount.Accepts : ReserveCount → Nat → Prop
  | any, n => 0 < n
  | exactly k, n => k = n

instance : (r : ReserveCount) → (n : Nat) → Decidable (r.Accepts n)
  | .any, n => inferInstanceAs (Decidable (0 < n))
  | .exactly k, n => inferInstanceAs (Decidable (k = n))

/-- The count named in an error message. -/
def ReserveCount.expected : ReserveCount → Nat
  | any => 1
  | exactly n => n

namespace Family

def all : List Family := [power, sigmoid, swapper, augmented]

def tag : Family → String
  | power => "power_function"
  | sigmoid => "sigmoid_function"
  | swapper => "swapper_function"
  | augmented => "augmented_function"

instance : ToString Family := ⟨tag⟩

def ofTag? (s : String) : Option Family :=
  all.find? (·.tag == s)

theorem ofTag?_tag (f : Family) : ofTag? f.tag = some f := by
  cases f <;> decide

def paramNames : Family → List String
  | power => ["m", "n", "c"]
  | sigmoid => ["a", "b", "c"]
  | swapper => []
  | augmented => ["d0", "p0", "theta", "kappa"]

def reserveCount : Family → ReserveCount
  | swapper => .exactly 2
  | power | sigmoid | augmented => .any

/-- All reserve tokens move by the same amount. -/
def lockstep : Family → Bool
  | swapper => false
  | power | sigmoid | augmented => true

/-- Families whose parameters meet one more condition than being present and non-negative. -/
def restricted : Family → Bool
  | power | sigmoid => true
  | swapper | augmented => false

end Family

end BondingCurve
