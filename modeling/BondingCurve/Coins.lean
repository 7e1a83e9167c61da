import BondingCurve.Checked

/-!
# Denominated amounts

A coin set is ordered by denomination and holds each denomination once, so a look-up has at most
one answer and the first coin is determined. Denominations are compared character by character.
-/

namespace BondingCurve

structure Coin where
  denom : String
  amount : Decimal
deriving DecidableEq

namespace Coin

instance : ToString Coin := ⟨fun c => toString c.amount ++ c.denom⟩

def zero (denom : String) : Coin := ⟨denom, 0⟩

def IsNegative (c : Coin) : Prop := c.amount < 0

instance (c : Coin) : Decidable c.IsNegative := inferInstanceAs (Decidable (c.amount < 0))

/-- Puts a coin before the first one whose denomination is not smaller. -/
def insertSorted (c : Coin) : List Coin → List Coin
  | [] => [c]
  | d :: ds => if d.denom < c.denom then d :: insertSorted c ds else c :: d :: ds

def sort (coins : List Coin) : List Coin := coins.foldr insertSorted []

/-- The first denomination that two neighbours share. -/
def firstRepeat : List Coin → Option String
  | c :: d :: ds => if c.denom = d.denom then some c.denom else firstRepeat (d :: ds)
  | _ => none

/-- Looks for a denomination among ascending coins by halves: the lower half is kept if the middle
coin comes after the denomination and the upper half if not, until at most one coin is left. -/
@[semireducible]
def search (denom : String) (coins : List Coin) : Option Coin :=
  if h : 2 ≤ coins.length then
    let middle := coins.length / 2
    if denom < coins[middle].denom then search denom (coins.take middle)
    else search denom (coins.drop middle)
  else coins.head?.filter (·.denom == denom)
termination_by coins.length
decreasing_by
  · rw [List.length_take]
    omega
  · rw [List.length_drop]
    omega

theorem mem_insertSorted {c e : Coin} {ds : List Coin} :
    e ∈ insertSorted c ds ↔ e = c ∨ e ∈ ds := by
  induction ds with
  | nil => simp [insertSorted]
  | cons d ds ih =>
    unfold insertSorted
    split
    · simp only [List.mem_cons, ih]
      exact or_left_comm
    · simp

theorem insertSorted_perm (c : Coin) (ds : List Coin) : (insertSorted c ds).Perm (c :: ds) := by
  induction ds with
  | nil => exact .refl _
  | cons d ds ih =>
    unfold insertSorted
    split
    · exact (ih.cons d).trans (.swap c d ds)
    · exact .refl _

theorem sort_perm (coins : List Coin) : (sort coins).Perm coins := by
  induction coins with
  | nil => exact .refl _
  | cons c coins ih => exact (insertSorted_perm c _).trans (ih.cons c)

theorem pairwise_insertSorted {c : Coin} {ds : List Coin}
    (h : ds.Pairwise (·.denom ≤ ·.denom)) : (insertSorted c ds).Pairwise (·.denom ≤ ·.denom) := by
  induction ds with
  | nil => simp [insertSorted]
  | cons d ds ih =>
    obtain ⟨hd, hds⟩ := List.pairwise_cons.mp h
    unfold insertSorted
    split
    · rename_i hlt
      refine List.pairwise_cons.mpr ⟨?_, ih hds⟩
      intro e he
      rcases mem_insertSorted.mp he with rfl | he
      · exact Std.le_of_lt hlt
      · exact hd e he
    · rename_i hnot
      refine List.pairwise_cons.mpr ⟨?_, h⟩
      have hcd : c.denom ≤ d.denom := String.not_lt.mp hnot
      intro e he
      rcases List.mem_cons.mp he with rfl | he
      · exact hcd
      · exact String.le_trans hcd (hd e he)

theorem pairwise_sort (coins : List Coin) : (sort coins).Pairwise (·.denom ≤ ·.denom) := by
  induction coins with
  | nil => exact .nil
  | cons c coins ih => exact pairwise_insertSorted ih

/-- Sorted coins are strictly ascending once no two neighbours agree. -/
theorem pairwise_lt_of_firstRepeat_eq_none {coins : List Coin}
    (h : coins.Pairwise (·.denom ≤ ·.denom)) (hr : firstRepeat coins = none) :
    coins.Pairwise (·.denom < ·.denom) := by
  induction coins with
  | nil => exact .nil
  | cons c coins ih =>
    cases coins with
    | nil => simp
    | cons d ds =>
      unfold firstRepeat at hr
      split at hr
      · cases hr
      · rename_i hne
        obtain ⟨hc, htail⟩ := List.pairwise_cons.mp h
        have hstrict := ih htail hr
        have hcd : c.denom < d.denom :=
          Std.lt_of_le_of_ne (hc d List.mem_cons_self) hne
        refine List.pairwise_cons.mpr ⟨?_, hstrict⟩
        intro e he
        rcases List.mem_cons.mp he with rfl | he
        · exact hcd
        · exact String.lt_trans hcd ((List.pairwise_cons.mp hstrict).1 e he)

section Search

variable {denom : String} {coins : List Coin}

theorem find?_eq_none_of_ne (h : ∀ c ∈ coins, c.denom ≠ denom) :
    coins.find? (·.denom == denom) = none := by
  simpa [List.find?_eq_none] using h

theorem find?_take_or_drop (p : Coin → Bool) (coins : List Coin) (n : Nat) :
    coins.find? p = ((coins.take n).find? p).or ((coins.drop n).find? p) := by
  rw [← List.find?_append, List.take_append_drop]

/-- Among ascending coins the half left out does not hold the denomination. -/
theorem search_eq_find? (h : coins.Pairwise (·.denom < ·.denom)) :
    search denom coins = coins.find? (·.denom == denom) := by
  fun_induction search denom coins with
  | case1 coins hLength middle hBefore ih =>
    have hAbove : ∀ c ∈ coins.drop middle, c.denom ≠ denom := by
      have hUpper := h.sublist (List.drop_sublist middle coins)
      rw [List.drop_eq_getElem_cons (by omega), List.pairwise_cons] at hUpper
      rw [List.drop_eq_getElem_cons (by omega)]
      intro c hc heq
      subst heq
      rcases List.mem_cons.mp hc with rfl | hc
      · exact String.lt_irrefl _ hBefore
      · exact String.lt_irrefl _ (String.lt_trans hBefore (hUpper.1 c hc))
    rw [ih (h.sublist (List.take_sublist middle coins)), find?_take_or_drop _ coins middle,
      find?_eq_none_of_ne hAbove, Option.or_none]
  | case2 coins hLength middle hNot ih =>
    have hBelow : ∀ c ∈ coins.take middle, c.denom ≠ denom := by
      rw [← List.take_append_drop middle coins, List.pairwise_append] at h
      have hMiddle : coins[middle] ∈ coins.drop middle := by
        rw [List.drop_eq_getElem_cons (by omega)]
        exact List.mem_cons_self
      intro c hc heq
      subst heq
      exact hNot (h.2.2 c hc _ hMiddle)
    rw [ih (h.sublist (List.drop_sublist middle coins)), find?_take_or_drop _ coins middle,
      find?_eq_none_of_ne hBelow, Option.none_or]
  | case3 coins hShort =>
    match coins, hShort with
    | [], _ => rfl
    | [c], _ => by_cases hFound : c.denom = denom <;> simp [hFound]
    | c :: d :: ds, hShort => simp at hShort

end Search

end Coin

structure Coins where
  toList : List Coin
  ascending : toList.Pairwise (·.denom < ·.denom)
deriving DecidableEq

namespace Coins

def empty : Coins := ⟨[], .nil⟩

def single (denom : String) (amount : Decimal) : Coins := ⟨[⟨denom, amount⟩], by simp⟩

instance : Inhabited Coins := ⟨empty⟩

/-- Orders the coins; a repeated denomination is an error that names the smallest one. -/
def ofList (coins : List Coin) : Except Error Coins :=
  match h : Coin.firstRepeat (Coin.sort coins) with
  | some denom => .error (.duplicateDenom denom)
  | none => .ok ⟨Coin.sort coins,
      Coin.pairwise_lt_of_firstRepeat_eq_none (Coin.pairwise_sort coins) h⟩

/-- One coin of each denomination, all of the same amount. -/
def uniform (denoms : List String) (amount : Decimal) : Except Error Coins :=
  ofList (denoms.map (⟨·, amount⟩))

/-- The amount held, zero for an absent denomination. -/
def amountOf (coins : Coins) (denom : String) : Decimal :=
  match Coin.search denom coins.toList with
  | some c => c.amount
  | none => 0

theorem amountOf_eq_find? (coins : Coins) (denom : String) : coins.amountOf denom =
    match coins.toList.find? (·.denom == denom) with
    | some c => c.amount
    | none => 0 := by
  rw [amountOf, Coin.search_eq_find? coins.ascending]

def size (coins : Coins) : Nat := coins.toList.length

def denoms (coins : Coins) : List String := coins.toList.map (·.denom)

def AnyNegative (coins : Coins) : Prop := ∃ c ∈ coins.toList, c.IsNegative

instance (coins : Coins) : Decidable coins.AnyNegative :=
  inferInstanceAs (Decidable (∃ c ∈ coins.toList, c.IsNegative))

/-- Some coin is above its limit; a limit that is absent or zero does not bind. -/
def Exceeds (coins limits : Coins) : Prop :=
  ∃ c ∈ coins.toList,
    (limits.amountOf c.denom).isZero = false ∧ limits.amountOf c.denom < c.amount

instance (coins limits : Coins) : Decidable (coins.Exceeds limits) :=
  inferInstanceAs (Decidable (∃ c ∈ coins.toList, _ ∧ _))

def mapAmounts (f : Decimal → Decimal) (coins : Coins) : Coins where
  toList := coins.toList.map fun c => { c with amount := f c.amount }
  ascending := List.pairwise_map.mpr coins.ascending

/-- Charges of at least these prices in whole units. -/
def roundUp (prices : Coins) : Coins := prices.mapAmounts Decimal.ceilUnits

/-- Payments of at most these returns in whole units. -/
def roundDown (returns : Coins) : Coins := returns.mapAmounts Decimal.truncateUnits

def ensureNonNegative (coins : Coins) (name : String) : Except Error Unit :=
  refuseIf coins.AnyNegative (.negativeArgument name)

instance : ToString Coins := ⟨fun coins => ",".intercalate (coins.toList.map toString)⟩

end Coins

end BondingCurve
