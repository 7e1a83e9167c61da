import BondingCurve.Coins
import BondingCurve.Proofs.Decimal.Grid

/-!
# Coin sets over given denominations

Over ascending denominations a list of coins is already a coin set, and every look-up, rounding and
sign check is that of the amounts.
-/

namespace BondingCurve

namespace Coin

theorem sort_of_pairwise {coins : List Coin} (h : coins.Pairwise (·.denom < ·.denom)) :
    sort coins = coins := by
  induction coins with
  | nil => rfl
  | cons c coins ih =>
    obtain ⟨hFirst, hRest⟩ := List.pairwise_cons.mp h
    change insertSorted c (sort coins) = c :: coins
    rw [ih hRest]
    cases coins with
    | nil => rfl
    | cons d ds =>
      have hLess : c.denom < d.denom := hFirst d List.mem_cons_self
      unfold insertSorted
      rw [if_neg (fun hd => String.lt_irrefl _ (String.lt_trans hd hLess))]

theorem firstRepeat_of_pairwise {coins : List Coin} (h : coins.Pairwise (·.denom < ·.denom)) :
    firstRepeat coins = none := by
  induction coins with
  | nil => rfl
  | cons c coins ih =>
    obtain ⟨hFirst, hRest⟩ := List.pairwise_cons.mp h
    cases coins with
    | nil => rfl
    | cons d ds =>
      have hLess : c.denom < d.denom := hFirst d List.mem_cons_self
      unfold firstRepeat
      rw [if_neg (fun hEq => String.lt_irrefl _ (hEq ▸ hLess))]
      exact ih hRest

end Coin

namespace Coins

variable {denoms : List String} {f : String → Decimal} {denom : String}

theorem eq_of_toList_eq {coins coins' : Coins} (h : coins.toList = coins'.toList) : coins = coins' := by
  cases coins
  cases coins'
  cases h
  rfl

/-- One coin of each denomination, in amounts of their own. -/
def each (denoms : List String) (h : denoms.Pairwise (· < ·)) (f : String → Decimal) : Coins where
  toList := denoms.map fun denom => ⟨denom, f denom⟩
  ascending := List.pairwise_map.mpr h

@[simp]
theorem denoms_each (h : denoms.Pairwise (· < ·)) : (each denoms h f).denoms = denoms := by
  rw [Coins.denoms, each, List.map_map]
  exact List.map_id denoms

theorem ofList_of_pairwise {coins : List Coin} (h : coins.Pairwise (·.denom < ·.denom)) :
    ofList coins = .ok ⟨coins, h⟩ := by
  have hSort : Coin.sort coins = coins := Coin.sort_of_pairwise h
  unfold ofList
  split
  · rename_i d hSome
    rw [hSort, Coin.firstRepeat_of_pairwise h] at hSome
    cases hSome
  · simp [hSort]

theorem ofList_each (h : denoms.Pairwise (· < ·)) :
    ofList (denoms.map fun denom => ⟨denom, f denom⟩) = .ok (each denoms h f) :=
  ofList_of_pairwise (each denoms h f).ascending

theorem uniform_each (h : denoms.Pairwise (· < ·)) (amount : Decimal) :
    uniform denoms amount = .ok (each denoms h fun _ => amount) :=
  ofList_each h

theorem amountOf_each (h : denoms.Pairwise (· < ·)) (hd : denom ∈ denoms) :
    (each denoms h f).amountOf denom = f denom := by
  have hFind : (denoms.map fun e => (⟨e, f e⟩ : Coin)).find? (·.denom == denom)
      = some ⟨denom, f denom⟩ := by
    clear h
    induction denoms with
    | nil => cases hd
    | cons e es ih =>
      rw [List.map_cons, List.find?_cons]
      by_cases hEq : e = denom
      · subst hEq
        simp
      · have hMem : denom ∈ es := (List.mem_cons.mp hd).resolve_left (Ne.symm hEq)
        have hOther : (e == denom) = false := by simpa using hEq
        simp only [hOther]
        exact ih hMem
  have hList : (each denoms h f).toList = denoms.map fun e => ⟨e, f e⟩ := rfl
  rw [amountOf_eq_find?, hList, hFind]

theorem each_congr {g : String → Decimal} (h : denoms.Pairwise (· < ·))
    (hSame : ∀ denom ∈ denoms, f denom = g denom) : each denoms h f = each denoms h g := by
  apply eq_of_toList_eq
  apply List.map_congr_left
  intro denom hd
  rw [hSame denom hd]

theorem mapAmounts_each (h : denoms.Pairwise (· < ·)) (g : Decimal → Decimal) :
    (each denoms h f).mapAmounts g = each denoms h fun denom => g (f denom) := by
  simp [mapAmounts, each, Function.comp_def]

theorem anyNegative_each (h : denoms.Pairwise (· < ·)) :
    (each denoms h f).AnyNegative ↔ ∃ denom ∈ denoms, (f denom).toRat < 0 := by
  constructor
  · rintro ⟨c, hc, hNegative⟩
    obtain ⟨denom, hd, rfl⟩ := List.mem_map.mp hc
    exact ⟨denom, hd, Decimal.lt_zero_iff_toRat.mp hNegative⟩
  · rintro ⟨denom, hd, hNegative⟩
    exact ⟨_, List.mem_map.mpr ⟨denom, hd, rfl⟩, Decimal.lt_zero_iff_toRat.mpr hNegative⟩

theorem not_anyNegative_empty : ¬empty.AnyNegative := by
  rintro ⟨c, hc, _⟩
  cases hc

theorem amountOf_nonneg {coins : Coins} (h : ¬coins.AnyNegative) (denom : String) :
    0 ≤ (coins.amountOf denom).toRat := by
  rw [amountOf_eq_find?]
  split
  · rename_i c hc
    by_contra hNegative
    exact h ⟨c, List.mem_of_find?_eq_some hc, Decimal.lt_zero_iff_toRat.mpr (not_le.mp hNegative)⟩
  · simp

end Coins

end BondingCurve
