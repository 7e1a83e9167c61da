import BondingCurve.Address
import BondingCurve.Coins
import BondingCurve.Curve

/-!
# Bonds

A bond ties a curve to the token it issues: the reserve tokens behind it, its fees, supply cap,
order limits and sanity band, and the current supply, which only the ledger moves. Quoting never
changes a bond.
-/

namespace BondingCurve

structure Bond where
  /-- Denomination of the bonded token. -/
  token : String
  name : String
  description : String
  creator : Address
  /-- The accounts that may edit the bond, in the order of the multisignature. -/
  signers : List Address
  family : Family
  params : Params
  reserves : List String
  reserveAddress : Address
  /-- Fee on buys and swaps, in percent. -/
  txFee : Decimal
  /-- Fee on sells, in percent. -/
  exitFee : Decimal
  feeAddress : Address
  maxSupply : Coin
  orderLimits : Coins
  /-- Expected ratio of the first reserve to the second; zero turns the check off. -/
  sanityRate : Decimal
  /-- Width of the sanity band on either side, in percent of the rate. -/
  sanityMargin : Decimal
  allowSells : Bool
  batchBlocks : UInt64
  supply : Coin
deriving DecidableEq

namespace Bond

/-- Enters a denomination into an ascending list, once. -/
def insertDenom (denom : String) : List String → List String
  | [] => [denom]
  | d :: ds =>
    if d < denom then d :: insertDenom denom ds
    else if d = denom then d :: ds
    else denom :: d :: ds

/-- Ascending and without repeats. -/
def sortDenoms (denoms : List String) : List String := denoms.foldr insertDenom []

theorem mem_insertDenom {e denom : String} {ds : List String} :
    e ∈ insertDenom denom ds ↔ e = denom ∨ e ∈ ds := by
  induction ds with
  | nil => simp [insertDenom]
  | cons d ds ih =>
    unfold insertDenom
    split
    · simp only [List.mem_cons, ih]
      exact or_left_comm
    · split
      · rename_i heq
        subst heq
        simp
      · simp

theorem mem_sortDenoms {e : String} {denoms : List String} :
    e ∈ sortDenoms denoms ↔ e ∈ denoms := by
  induction denoms with
  | nil => simp [sortDenoms]
  | cons d ds ih =>
    change e ∈ insertDenom d (sortDenoms ds) ↔ _
    rw [mem_insertDenom, ih, List.mem_cons]

theorem pairwise_insertDenom {denom : String} {ds : List String} (h : ds.Pairwise (· < ·)) :
    (insertDenom denom ds).Pairwise (· < ·) := by
  induction ds with
  | nil => simp [insertDenom]
  | cons d ds ih =>
    obtain ⟨hd, hds⟩ := List.pairwise_cons.mp h
    unfold insertDenom
    split
    · rename_i hlt
      refine List.pairwise_cons.mpr ⟨?_, ih hds⟩
      intro e he
      rcases mem_insertDenom.mp he with rfl | he
      · exact hlt
      · exact hd e he
    · rename_i hnot
      split
      · exact h
      · rename_i hne
        have hlt : denom < d := Std.lt_of_le_of_ne (String.not_lt.mp hnot) (Ne.symm hne)
        refine List.pairwise_cons.mpr ⟨?_, h⟩
        intro e he
        rcases List.mem_cons.mp he with rfl | he
        · exact hlt
        · exact String.lt_trans hlt (hd e he)

theorem pairwise_sortDenoms (denoms : List String) : (sortDenoms denoms).Pairwise (· < ·) := by
  induction denoms with
  | nil => exact .nil
  | cons d ds ih => exact pairwise_insertDenom ih

/-- A bond without supply, fees, order limits or sanity check, whose creator signs alone. -/
def create (token name description : String) (creator : Address) (family : Family)
    (params : Params) (reserves : List String) (maxSupply : Decimal) : Bond where
  token := token
  name := name
  description := description
  creator := creator
  signers := [creator]
  family := family
  params := params
  reserves := sortDenoms reserves
  reserveAddress := .zero
  txFee := 0
  exitFee := 0
  feeAddress := .zero
  maxSupply := ⟨token, maxSupply⟩
  orderLimits := .empty
  sanityRate := 0
  sanityMargin := 0
  allowSells := true
  batchBlocks := 1
  supply := .zero token

def curve (bond : Bond) : Except Error Curve := Curve.ofParams bond.family bond.params

/-- The circulating supply; a negative one is a violation. -/
def currentSupply (bond : Bond) : Logged Decimal :=
  if bond.supply.IsNegative then .violate (.negativeSupply bond.token)
  else return bond.supply.amount

def IsReserve (bond : Bond) (denom : String) : Prop := denom ∈ bond.reserves

instance (bond : Bond) (denom : String) : Decidable (bond.IsReserve denom) :=
  inferInstanceAs (Decidable (denom ∈ bond.reserves))

/-- One coin of every reserve token, each of the given amount. -/
def reserveCoins (bond : Bond) (amount : Decimal) : Except Error Coins :=
  Coins.uniform bond.reserves amount

/-- The balance of the first reserve token, which stands for all of them in lockstep. -/
def commonBalance (bond : Bond) (balances : Coins) : Decimal :=
  match bond.reserves with
  | [] => 0
  | denom :: _ => balances.amountOf denom

def SignedBy (bond : Bond) (signers : List Address) : Prop := bond.signers = signers

instance (bond : Bond) (signers : List Address) : Decidable (bond.SignedBy signers) :=
  inferInstanceAs (Decidable (bond.signers = signers))

/-- As many coins as reserve tokens, and a non-zero amount of each reserve token. -/
def ReservedBy (bond : Bond) (coins : Coins) : Prop :=
  coins.size = bond.reserves.length ∧ ∀ denom ∈ bond.reserves, (coins.amountOf denom).isZero = false

instance (bond : Bond) (coins : Coins) : Decidable (bond.ReservedBy coins) :=
  inferInstanceAs (Decidable (_ ∧ ∀ denom ∈ bond.reserves, _))

end Bond

end BondingCurve
