import BondingCurve.Bond.Basic
import BondingCurve.Proofs.CoinSet

/-!
# Coins in exactly the reserve tokens

The check counts the coins and looks up every reserve token. As neither side repeats a denomination, this
leaves no room for a coin of another one, nor for a zero.
-/

namespace BondingCurve.Bond

open Decimal

variable {bond : Bond} {coins : Coins}

/-- As many coins as reserve tokens and a coin of every token: the denominations are the tokens. -/
theorem denoms_perm_reserves (hDistinct : bond.reserves.Nodup) (hSize : coins.size = bond.reserves.length)
    (hFound : ∀ denom ∈ bond.reserves, denom ∈ coins.denoms) : coins.denoms.Perm bond.reserves := by
  have hLength : coins.denoms.length = bond.reserves.length := by
    rw [Coins.denoms, List.length_map]
    exact hSize
  have hSub := List.subperm_of_subset hDistinct hFound
  exact (hSub.perm_of_length_le hLength.le).symm

theorem ReservedBy.mem_denoms (h : bond.ReservedBy coins) {denom : String} (hd : denom ∈ bond.reserves) :
    denom ∈ coins.denoms ∧ (coins.amountOf denom).toRat ≠ 0 := by
  have hNonzero : (coins.amountOf denom).toRat ≠ 0 := by
    intro hZero
    have hFound := h.2 denom hd
    rw [isZero_iff_toRat.mpr hZero] at hFound
    cases hFound
  obtain ⟨c, hc, rfl, _⟩ := Coins.exists_of_amountOf_ne_zero hNonzero
  exact ⟨List.mem_map_of_mem hc, hNonzero⟩

theorem reservedBy_iff (hDistinct : bond.reserves.Nodup) : bond.ReservedBy coins ↔
    (∀ denom, denom ∈ coins.denoms ↔ denom ∈ bond.reserves) ∧ ∀ c ∈ coins.toList, c.amount.toRat ≠ 0 := by
  constructor
  · intro h
    have hPerm := denoms_perm_reserves hDistinct h.1 fun _ hd => (h.mem_denoms hd).1
    refine ⟨fun _ => hPerm.mem_iff, fun c hc => ?_⟩
    rw [← Coins.amountOf_of_mem hc]
    exact (h.mem_denoms (hPerm.mem_iff.mp (List.mem_map_of_mem hc))).2
  · rintro ⟨hSame, hNonzero⟩
    have hPerm := (List.perm_ext_iff_of_nodup coins.nodup_denoms hDistinct).mpr hSame
    refine ⟨?_, fun denom hd => ?_⟩
    · rw [Coins.size, ← hPerm.length_eq, Coins.denoms, List.length_map]
    · obtain ⟨c, hc, rfl⟩ := List.mem_map.mp ((hSame denom).mpr hd)
      rw [Coins.amountOf_of_mem hc]
      simpa using mt isZero_iff_toRat.mp (hNonzero c hc)

/-- A new bond holds the tokens it was given, each once and in the order of their bytes. A coin set passes
the check of a bond with distinct reserve tokens if and only if its denominations are exactly these and no
coin is zero. -/
theorem reserves_exact :
    (∀ (token name description : String) (creator : Address) (family : Family) (params : Params)
        (denoms : List String) (maxSupply : Decimal),
      ((create token name description creator family params denoms maxSupply).reserves.Pairwise
        fun d e => Text.bytes d < Text.bytes e) ∧
      ∀ denom, denom ∈ (create token name description creator family params denoms maxSupply).reserves ↔
        denom ∈ denoms) ∧
    ∀ (bond : Bond) (coins : Coins), bond.reserves.Nodup → (bond.ReservedBy coins ↔
      (∀ denom, denom ∈ coins.denoms ↔ denom ∈ bond.reserves) ∧ ∀ c ∈ coins.toList, ¬c.amount ≈ 0) := by
  constructor
  · intro token name description creator family params denoms maxSupply
    simp only [create, Text.bytes_lt_iff]
    exact ⟨pairwise_sortDenoms denoms, fun _ => mem_sortDenoms⟩
  · intro bond coins hDistinct
    simp only [equiv_iff_toRat_eq, toRat_zero]
    exact reservedBy_iff hDistinct

/-- Reserve tokens given out of order, one of them twice. -/
def repeatedTokens : Bond :=
  .create "pool" "Pool" "Repeated reserve tokens" .zero .swapper (.ofPairs []) ["bbb", "aaa", "bbb"]
    (.units 1000)

theorem reserves_exact_repeatedTokens : repeatedTokens.reserves.Nodup ∧
    (∀ denom, denom ∈ repeatedTokens.reserves ↔ denom ∈ ["bbb", "aaa", "bbb"]) ∧
    repeatedTokens.ReservedBy (.each repeatedTokens.reserves (by decide) fun _ => 1) ∧
    ¬repeatedTokens.ReservedBy (.each ["aaa", "ccc"] (by decide) fun _ => 1) := by
  obtain ⟨hCreated, hChecked⟩ := reserves_exact
  have hTokens : ∀ denom, denom ∈ repeatedTokens.reserves ↔ denom ∈ ["bbb", "aaa", "bbb"] :=
    (hCreated _ _ _ _ _ _ _ _).2
  have hDistinct : repeatedTokens.reserves.Nodup := by decide
  refine ⟨hDistinct, hTokens, (hChecked _ _ hDistinct).mpr ⟨fun denom => ?_, by decide⟩, fun h => ?_⟩
  · rw [hTokens, Coins.denoms_each]
    grind
  · have hForeign := (((hChecked _ _ hDistinct).mp h).1 "ccc").mp (by decide)
    rw [hTokens] at hForeign
    revert hForeign
    decide

end BondingCurve.Bond
