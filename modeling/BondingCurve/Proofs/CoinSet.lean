import BondingCurve.Proofs.Coins
import BondingCurve.Proofs.Text.ByteOrder

/-!
# Coin sets as finite maps

A list of coins becomes a coin set if and only if no denomination is on two of them, and the set does not
depend on their order. On every coin set the search by halves finds the one coin of a denomination, or
that there is none.
-/

namespace BondingCurve

namespace Coin

variable {list other : List Coin} {c : Coin} {denom : String}

/-- Two of the coins have the denomination. -/
def Repeated (list : List Coin) (denom : String) : Prop := 2 ≤ (list.map (·.denom)).count denom

instance (list : List Coin) (denom : String) : Decidable (Repeated list denom) :=
  inferInstanceAs (Decidable (2 ≤ _))

theorem repeated_congr (h : list.Perm other) : Repeated list denom ↔ Repeated other denom := by
  rw [Repeated, Repeated, (h.map (·.denom)).count_eq]

theorem Repeated.cons (h : Repeated list denom) : Repeated (c :: list) denom :=
  h.trans (by rw [List.map_cons]; exact List.count_le_count_cons)

theorem Repeated.mem (h : Repeated list denom) : ∃ c ∈ list, c.denom = denom := by
  have hMem : denom ∈ list.map (·.denom) := List.count_pos_iff.mp (Nat.lt_of_lt_of_le Nat.zero_lt_two h)
  exact List.mem_map.mp hMem

/-- A denomination repeated with one more coin is that of the coin and of another, or was repeated before. -/
theorem Repeated.of_cons (h : Repeated (c :: list) denom) :
    Repeated list denom ∨ c.denom = denom ∧ ∃ d ∈ list, d.denom = denom := by
  by_cases hFirst : c.denom = denom
  · right
    rw [Repeated, List.map_cons, hFirst, List.count_cons_self] at h
    have hCount : 0 < (list.map (·.denom)).count denom := by omega
    exact ⟨hFirst, List.mem_map.mp (List.count_pos_iff.mp hCount)⟩
  · left
    rwa [Repeated, List.map_cons, List.count_cons_of_ne hFirst] at h

theorem not_repeated_of_pairwise (h : list.Pairwise (·.denom < ·.denom)) : ¬Repeated list denom := by
  have hDistinct : (list.map (·.denom)).Nodup := (List.pairwise_map.mpr h).nodup
  have hCount := List.nodup_iff_count_le_one.mp hDistinct denom
  rw [Repeated]
  omega

/-- In ascending order the first repeat is the least. -/
theorem firstRepeat_spec (h : list.Pairwise (·.denom ≤ ·.denom)) (hFound : firstRepeat list = some denom) :
    Repeated list denom ∧ ∀ e, Repeated list e → denom ≤ e := by
  fun_induction firstRepeat list with
  | case1 c d ds hSame =>
    cases hFound
    refine ⟨?_, fun e he => ?_⟩
    · rw [Repeated, List.map_cons, List.map_cons, ← hSame, List.count_cons_self, List.count_cons_self]
      omega
    · obtain ⟨a, ha, rfl⟩ := he.mem
      rcases List.mem_cons.mp ha with rfl | ha
      · exact String.le_refl _
      · exact (List.pairwise_cons.mp h).1 a ha
  | case2 c d ds hDiffer ih =>
    obtain ⟨hFirst, hRest⟩ := List.pairwise_cons.mp h
    obtain ⟨hRepeated, hLeast⟩ := ih hRest hFound
    refine ⟨hRepeated.cons, fun e he => ?_⟩
    rcases he.of_cons with he | ⟨rfl, a, ha, hSame⟩
    · exact hLeast e he
    · -- the first denomination is below the second, so it does not come again
      have hBelow : c.denom < d.denom := Std.lt_of_le_of_ne (hFirst d List.mem_cons_self) hDiffer
      have hAbove : d.denom ≤ a.denom := by
        rcases List.mem_cons.mp ha with rfl | ha
        · exact String.le_refl _
        · exact (List.pairwise_cons.mp hRest).1 a ha
      rw [hSame] at hAbove
      exact absurd hBelow (String.not_lt.mpr hAbove)
  | case3 => cases hFound

end Coin

namespace Coins

variable {list other : List Coin} {coins limits : Coins} {c d : Coin} {denom : String} {e : Error}

theorem nodup_denoms (coins : Coins) : coins.denoms.Nodup :=
  (List.pairwise_map.mpr coins.ascending).nodup

theorem eq_of_denom_eq (hc : c ∈ coins.toList) (hd : d ∈ coins.toList) (h : c.denom = d.denom) : c = d :=
  List.inj_on_of_nodup_map coins.nodup_denoms hc hd h

theorem eq_of_perm {coins coins' : Coins} (h : coins.toList.Perm coins'.toList) : coins = coins' := by
  apply eq_of_toList_eq
  refine h.eq_of_pairwise ?_ coins.ascending coins'.ascending
  intro c d _ _ hLess hMore
  exact absurd (String.lt_trans hLess hMore) (String.lt_irrefl _)

theorem ofList_eq_ok_iff : ofList list = .ok coins ↔ coins.toList.Perm list := by
  constructor
  · intro h
    unfold ofList at h
    split at h
    · cases h
    · cases h
      exact Coin.sort_perm list
  · intro h
    have hSorted : coins.toList.Perm (Coin.sort list) := h.trans (Coin.sort_perm list).symm
    unfold ofList
    split
    · rename_i denom hFound
      obtain ⟨hRepeated, _⟩ := Coin.firstRepeat_spec (Coin.pairwise_sort list) hFound
      rw [← Coin.repeated_congr hSorted] at hRepeated
      exact absurd hRepeated (Coin.not_repeated_of_pairwise coins.ascending)
    · exact congrArg Except.ok (eq_of_perm hSorted.symm)

/-- A list is refused for the least of its repeated denominations. -/
theorem ofList_eq_error_iff : ofList list = .error e ↔ ∃ denom, e = .duplicateDenom denom ∧
    Coin.Repeated list denom ∧ ∀ other, Coin.Repeated list other → denom ≤ other := by
  unfold ofList
  split
  · rename_i found hFound
    obtain ⟨hRepeated, hLeast⟩ := Coin.firstRepeat_spec (Coin.pairwise_sort list) hFound
    simp only [Coin.repeated_congr (Coin.sort_perm list)] at hRepeated hLeast
    constructor
    · intro h
      cases h
      exact ⟨found, rfl, hRepeated, hLeast⟩
    · rintro ⟨denom, rfl, hDenom, hOther⟩
      rw [String.le_antisymm (hLeast denom hDenom) (hOther found hRepeated)]
  · rename_i hNone
    constructor
    · intro h
      cases h
    · rintro ⟨denom, _, hRepeated, _⟩
      rw [← Coin.repeated_congr (Coin.sort_perm list)] at hRepeated
      have hAscending := Coin.pairwise_lt_of_firstRepeat_eq_none (Coin.pairwise_sort list) hNone
      exact absurd hRepeated (Coin.not_repeated_of_pairwise hAscending)

theorem ofList_perm (h : other.Perm list) : ofList other = ofList list := by
  cases hList : ofList list with
  | ok coins => exact ofList_eq_ok_iff.mpr ((ofList_eq_ok_iff.mp hList).trans h.symm)
  | error e =>
    rw [ofList_eq_error_iff] at hList ⊢
    simpa only [Coin.repeated_congr h] using hList

theorem amountOf_of_mem (h : c ∈ coins.toList) : coins.amountOf c.denom = c.amount := by
  rw [amountOf_eq_find?]
  cases hFound : coins.toList.find? (·.denom == c.denom) with
  | none => simpa using List.find?_eq_none.mp hFound c h
  | some d =>
    have hSame : d.denom = c.denom := by simpa using List.find?_some hFound
    rw [eq_of_denom_eq (List.mem_of_find?_eq_some hFound) h hSame]

theorem amountOf_of_not_mem (h : denom ∉ coins.denoms) : coins.amountOf denom = 0 := by
  have hNone : ∀ c ∈ coins.toList, c.denom ≠ denom := fun c hc hSame => h (List.mem_map.mpr ⟨c, hc, hSame⟩)
  rw [amountOf_eq_find?, Coin.find?_eq_none_of_ne hNone]

theorem exists_of_amountOf_ne_zero (h : (coins.amountOf denom).toRat ≠ 0) :
    ∃ c ∈ coins.toList, c.denom = denom ∧ coins.amountOf denom = c.amount := by
  by_contra hNone
  refine h ?_
  rw [amountOf_of_not_mem, Decimal.toRat_zero]
  intro hMem
  obtain ⟨c, hc, rfl⟩ := List.mem_map.mp hMem
  exact hNone ⟨c, hc, rfl, amountOf_of_mem hc⟩

theorem exceeds_iff : coins.Exceeds limits ↔ ∃ c ∈ coins.toList, ∃ limit ∈ limits.toList,
    limit.denom = c.denom ∧ limit.amount.toRat ≠ 0 ∧ limit.amount.toRat < c.amount.toRat := by
  constructor
  · rintro ⟨c, hc, hBinds, hAbove⟩
    have hNonzero : (limits.amountOf c.denom).toRat ≠ 0 := by
      intro hZero
      rw [Decimal.isZero_iff_toRat.mpr hZero] at hBinds
      cases hBinds
    obtain ⟨limit, hLimit, hDenom, hAmount⟩ := exists_of_amountOf_ne_zero hNonzero
    rw [hAmount] at hNonzero hAbove
    exact ⟨c, hc, limit, hLimit, hDenom, hNonzero, Decimal.lt_iff_toRat_lt.mp hAbove⟩
  · rintro ⟨c, hc, limit, hLimit, hDenom, hNonzero, hAbove⟩
    refine ⟨c, hc, ?_⟩
    rw [← hDenom, amountOf_of_mem hLimit]
    exact ⟨by simpa using mt Decimal.isZero_iff_toRat.mp hNonzero, Decimal.lt_iff_toRat_lt.mpr hAbove⟩

/-- Coins sort into a set unless a denomination is on two of them; then the one whose bytes come first is
named. Either way their order does not matter. A look-up in a set finds the only coin of a denomination, and
zero where there is none, and a set exceeds limits if one of its coins is above a limit that is not zero. -/
theorem ofList_faithful (list : List Coin) :
    ((∃ coins, ofList list = .ok coins) ↔ ¬∃ denom, Coin.Repeated list denom) ∧
    (∀ coins, ofList list = .ok coins → coins.toList.Perm list ∧
      coins.toList.Pairwise fun c d => Text.bytes c.denom < Text.bytes d.denom) ∧
    (∀ e, ofList list = .error e ↔ ∃ denom, e = .duplicateDenom denom ∧ Coin.Repeated list denom ∧
      ∀ other, Coin.Repeated list other → Text.bytes denom ≤ Text.bytes other) ∧
    (∀ reordered : List Coin, reordered.Perm list → ofList reordered = ofList list) ∧
    (∀ coins : Coins, (∀ c ∈ coins.toList, coins.amountOf c.denom = c.amount ∧
        ∀ d ∈ coins.toList, d.denom = c.denom → d = c) ∧
      ∀ denom ∉ coins.denoms, coins.amountOf denom = 0) ∧
    ∀ coins limits : Coins, coins.Exceeds limits ↔ ∃ c ∈ coins.toList, ∃ limit ∈ limits.toList,
      limit.denom = c.denom ∧ limit.amount.toRat ≠ 0 ∧ limit.amount.toRat < c.amount.toRat := by
  refine ⟨?_, fun coins h => ⟨ofList_eq_ok_iff.mp h, ?_⟩, ?_, fun _ => ofList_perm, fun coins =>
    ⟨fun c hc => ⟨amountOf_of_mem hc, fun d hd hSame => eq_of_denom_eq hd hc hSame⟩,
      fun _ => amountOf_of_not_mem⟩, fun _ _ => exceeds_iff⟩
  · cases hList : ofList list with
    | ok coins =>
      simp only [← Coin.repeated_congr (ofList_eq_ok_iff.mp hList)]
      exact ⟨fun _ ⟨_, h⟩ => Coin.not_repeated_of_pairwise coins.ascending h, fun _ => ⟨coins, rfl⟩⟩
    | error e =>
      obtain ⟨denom, _, hRepeated, _⟩ := ofList_eq_error_iff.mp hList
      exact ⟨fun ⟨_, h⟩ => (by cases h), fun h => absurd ⟨denom, hRepeated⟩ h⟩
  · simp only [Text.bytes_lt_iff]
    exact coins.ascending
  · simp only [Text.bytes_le_iff]
    exact fun _ => ofList_eq_error_iff

/-- Two repeated denominations, one of them beyond ASCII. -/
def twiceEach : List Coin := [⟨"é", 1⟩, ⟨"z", 1⟩, ⟨"é", 0⟩, ⟨"z", 0⟩]

def outOfOrder : List Coin := [⟨"é", 1⟩, ⟨"z", .units 5⟩]

theorem ofList_faithful_outOfOrder :
    (ofList twiceEach = .error (.duplicateDenom "z") ∧ Text.bytes "z" ≤ Text.bytes "é") ∧
    ∃ coins, ofList outOfOrder = .ok coins ∧ coins.amountOf "z" = .units 5 ∧ coins.amountOf "a" = 0 ∧
      coins.Exceeds (single "z" 1) := by
  obtain ⟨_, _, hRefused, _⟩ := ofList_faithful twiceEach
  have hError : ofList twiceEach = .error (.duplicateDenom "z") := by decide +kernel
  obtain ⟨denom, hSame, _, hLeast⟩ := (hRefused _).mp hError
  cases hSame
  refine ⟨⟨hError, hLeast "é" (by decide)⟩, ?_⟩
  obtain ⟨hAccepted, hSorted, _, _, hFound, hExceeds⟩ := ofList_faithful outOfOrder
  obtain ⟨coins, hCoins⟩ := hAccepted.mpr fun ⟨denom, hRepeated⟩ => by
    obtain ⟨c, hc, rfl⟩ := hRepeated.mem
    revert c
    decide
  have hPerm := (hSorted coins hCoins).1
  have hMem : ⟨"z", .units 5⟩ ∈ coins.toList := hPerm.mem_iff.mpr (by decide)
  refine ⟨coins, hCoins, ((hFound coins).1 _ hMem).1, (hFound coins).2 "a" ?_, (hExceeds _ _).mpr ?_⟩
  · rw [denoms, (hPerm.map (·.denom)).mem_iff]
    decide
  · exact ⟨_, hMem, ⟨"z", 1⟩, List.mem_singleton_self _, rfl, by norm_num, by decide +kernel⟩

end Coins

end BondingCurve
