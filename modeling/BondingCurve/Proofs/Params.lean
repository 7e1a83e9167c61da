import BondingCurve.Curve
import BondingCurve.Proofs.Decimal.Grid
import Mathlib.Data.List.Perm.Subperm

/-!
# Which parameters are accepted

The checks compare a count and look up each name of the family, the last entry winning. As many entries
as names, and an entry for every name: so each name is entered once and no other name at all. A repeated
name is therefore refused under either policy, and the order of the entries does not matter.
-/

namespace BondingCurve

open Decimal

theorem forM_eq_ok_iff {α : Type} {items : List α} {check : α → Except Error Unit} {u : Unit} :
    items.forM check = .ok u ↔ ∀ item ∈ items, check item = .ok () := by
  induction items with
  | nil => simp [pure, Except.pure]
  | cons first rest ih =>
    rw [List.forM_eq_forM] at ih ⊢
    rw [List.forM_cons, bind_eq_ok_iff, ih, List.forall_mem_cons]
    constructor
    · rintro ⟨_, hFirst, hRest⟩
      exact ⟨hFirst, hRest⟩
    · rintro ⟨hFirst, hRest⟩
      exact ⟨(), hFirst, hRest⟩

namespace Decimal

variable {x : Decimal} {name : String}

theorem ensureNonNegative_eq_ok_iff {u : Unit} : x.ensureNonNegative name = .ok u ↔ 0 ≤ x.toRat := by
  rw [ensureNonNegative, refuseIf_eq_ok_iff, lt_zero_iff_toRat, not_lt]

theorem negative_eq_false_of_nonneg (h : 0 ≤ x.toRat) (hZero : x.mantissa = 0 → x.negative = false) :
    x.negative = false := by
  by_contra hSign
  have hMinus : x.toRat = -x.toMagnitude.toRat := by rw [toRat_eq, if_pos (by simpa using hSign)]
  have hNonneg := x.toMagnitude.toRat_nonneg
  have hNone : x.toRat = 0 := le_antisymm (by linarith) h
  exact hSign (hZero (toRat_eq_zero_iff.mp hNone))

/-- A whole number is a word below `2 ^ 64`, unless it is a zero under a minus sign. -/
theorem toWord_eq_ok_iff (h : x.IsInteger) {n : UInt64} :
    x.toWord name = .ok n ↔ x.negative = false ∧ x.toRat = n.toNat := by
  have hWord : x.toWord name = .ok n ↔ x.toWord? = some n := by
    rw [toWord]
    split <;> simp_all
  have hMantissa : x.negative = false → x.toRat = x.truncateUnits.mantissa := by
    intro hSign
    have hValue : x.truncateUnits.toRat = x.toRat := equiv_iff_toRat_eq.mp h
    have hNonneg := toRat_nonneg_of_negative_eq_false hSign
    rw [← abs_toRat_truncateUnits, hValue, abs_of_nonneg hNonneg]
  rw [hWord, toWord?]
  split
  · rename_i hFits
    rw [Option.some.injEq, hMantissa hFits.1, Nat.cast_inj, ← UInt64.toNat_inj,
      UInt64.toNat_ofNat_of_lt' hFits.2]
    exact ⟨fun hEq => ⟨hFits.1, hEq⟩, fun hEq => hEq.2⟩
  · rename_i hLong
    constructor
    · intro hNone
      cases hNone
    · rintro ⟨hSign, hEq⟩
      rw [hMantissa hSign, Nat.cast_inj] at hEq
      exact absurd ⟨hSign, hEq ▸ n.toNat_lt⟩ hLong

end Decimal

namespace Params

variable {params reordered : Params} {family : Family} {name : String} {v : Decimal}

def names (params : Params) : List String := params.toList.map (·.name)

theorem mem_names (h : ⟨name, v⟩ ∈ params.toList) : name ∈ params.names :=
  List.mem_map.mpr ⟨_, h, rfl⟩

theorem mem_of_valueOf? (h : params.valueOf? name = some v) : ⟨name, v⟩ ∈ params.toList := by
  obtain ⟨p, hFound, rfl⟩ := Option.map_eq_some_iff.mp h
  have hName : p.name = name := by simpa using List.find?_some hFound
  have hMem := List.mem_reverse.mp (List.mem_of_find?_eq_some hFound)
  cases hName
  exact hMem

theorem exists_valueOf? (h : name ∈ params.names) : ∃ v, params.valueOf? name = some v := by
  obtain ⟨p, hp, rfl⟩ := List.mem_map.mp h
  have hFound : (params.toList.reverse.find? (·.name == p.name)).isSome := by
    rw [List.find?_isSome]
    exact ⟨p, List.mem_reverse.mpr hp, by simp⟩
  obtain ⟨q, hq⟩ := Option.isSome_iff_exists.mp hFound
  exact ⟨q.value, by rw [valueOf?, hq, Option.map_some]⟩

/-- With one entry a name, the last entry is the only one. -/
theorem valueOf?_eq_some_iff (h : params.names.Nodup) :
    params.valueOf? name = some v ↔ ⟨name, v⟩ ∈ params.toList := by
  constructor
  · exact mem_of_valueOf?
  · intro hMem
    obtain ⟨w, hw⟩ := exists_valueOf? (mem_names hMem)
    have hSame : (⟨name, w⟩ : Param) = ⟨name, v⟩ :=
      List.inj_on_of_nodup_map h (mem_of_valueOf? hw) hMem rfl
    cases hSame
    exact hw

theorem valueOf_eq_ok_iff : params.valueOf name = .ok v ↔ params.valueOf? name = some v := by
  rw [valueOf]
  split <;> simp_all

theorem firstRepeat_eq_none_iff {seen : List String} {ps : List Param} :
    firstRepeat seen ps = none ↔ (∀ p ∈ ps, p.name ∉ seen) ∧ (ps.map (·.name)).Nodup := by
  induction ps generalizing seen with
  | nil => simp [firstRepeat]
  | cons p ps ih =>
    rw [firstRepeat]
    split
    · rename_i hSeen
      simp [hSeen]
    · rename_i hNew
      rw [ih]
      simp only [List.mem_cons, List.map_cons, List.nodup_cons, List.mem_map]
      grind

theorem firstDuplicate?_eq_none_iff : params.firstDuplicate? = none ↔ params.names.Nodup := by
  rw [firstDuplicate?, firstRepeat_eq_none_iff]
  simp [names]

/-- The names of the family, once each, with values in its range. -/
structure Legal (params : Params) (family : Family) : Prop where
  entered : params.names.Perm family.paramNames
  nonneg : ∀ p ∈ params.toList, 0 ≤ p.value.toRat
  whole : family = .power → ∀ n : Decimal, ⟨"n", n⟩ ∈ params.toList → ∃ k : ℤ, n.toRat = k
  positive : family = .sigmoid → ∀ c : Decimal, ⟨"c", c⟩ ∈ params.toList → 0 < c.toRat

theorem nodup_paramNames (family : Family) : family.paramNames.Nodup := by
  cases family <;> decide

theorem Legal.nodup (h : params.Legal family) : params.names.Nodup :=
  h.entered.nodup_iff.mpr (nodup_paramNames family)

theorem Legal.reorder (h : params.Legal family) (hOrder : reordered.toList.Perm params.toList) :
    reordered.Legal family where
  entered := (hOrder.map _).trans h.entered
  nonneg p hp := h.nonneg p (hOrder.mem_iff.mp hp)
  whole hFamily n hn := h.whole hFamily n (hOrder.mem_iff.mp hn)
  positive hFamily c hc := h.positive hFamily c (hOrder.mem_iff.mp hc)

theorem Legal.valueOf_eq_ok_iff (h : params.Legal family) :
    params.valueOf name = .ok v ↔ ⟨name, v⟩ ∈ params.toList := by
  rw [Params.valueOf_eq_ok_iff, valueOf?_eq_some_iff h.nodup]

theorem Legal.exists_valueOf (h : params.Legal family) (hName : name ∈ family.paramNames) :
    ∃ v, params.valueOf name = .ok v ∧ ⟨name, v⟩ ∈ params.toList := by
  obtain ⟨v, hv⟩ := exists_valueOf? (h.entered.mem_iff.mpr hName)
  exact ⟨v, Params.valueOf_eq_ok_iff.mpr hv, mem_of_valueOf? hv⟩

theorem checkNamed_eq_ok_iff {u : Unit} :
    params.checkNamed name = .ok u ↔ ∃ v, params.valueOf name = .ok v ∧ 0 ≤ v.toRat := by
  rw [checkNamed, bind_eq_ok_iff]
  simp only [ensureNonNegative_eq_ok_iff]

theorem validate_eq_ok_iff :
    params.validate family = .ok () ↔ params.size = family.paramNames.length ∧
      (∀ name ∈ family.paramNames, ∃ v, params.valueOf name = .ok v ∧ 0 ≤ v.toRat) ∧
      params.checkRestriction family = .ok () := by
  simp only [validate, bind_eq_ok_iff, refuseIf_eq_ok_iff, not_not, forM_eq_ok_iff,
    checkNamed_eq_ok_iff]
  constructor
  · rintro ⟨_, hSize, _, hNames, hRestriction⟩
    exact ⟨hSize, hNames, hRestriction⟩
  · rintro ⟨hSize, hNames, hRestriction⟩
    exact ⟨(), hSize, (), hNames, hRestriction⟩

theorem checkRestriction_power_iff :
    params.checkRestriction .power = .ok () ↔
      ∃ n, params.valueOf "n" = .ok n ∧ ∃ k : ℤ, n.toRat = k := by
  rw [checkRestriction, bind_eq_ok_iff]
  simp only [refuseIf_eq_ok_iff, not_not, isInteger_iff]

theorem checkRestriction_sigmoid_iff :
    params.checkRestriction .sigmoid = .ok () ↔
      ∃ c, params.valueOf "c" = .ok c ∧ 0 < c.toRat := by
  rw [checkRestriction, bind_eq_ok_iff]
  simp only [refuseIf_eq_ok_iff, le_iff_toRat_le, toRat_zero, not_le]

/-- As many entries as names and an entry for every name leave no room for another. -/
theorem perm_paramNames (hSize : params.size = family.paramNames.length)
    (hNames : ∀ name ∈ family.paramNames, name ∈ params.names) :
    params.names.Perm family.paramNames := by
  have hLength : params.names.length = family.paramNames.length := by
    rw [names, List.length_map]
    exact hSize
  have hSub := List.subperm_of_subset (nodup_paramNames family) hNames
  exact (hSub.perm_of_length_le hLength.le).symm

theorem legal_of_validate (h : params.validate family = .ok ()) : params.Legal family := by
  obtain ⟨hSize, hNames, hRestriction⟩ := validate_eq_ok_iff.mp h
  have hPerm : params.names.Perm family.paramNames := by
    apply perm_paramNames hSize
    intro name hName
    obtain ⟨v, hv, _⟩ := hNames name hName
    exact mem_names (mem_of_valueOf? (valueOf_eq_ok_iff.mp hv))
  have hNodup : params.names.Nodup := hPerm.nodup_iff.mpr (nodup_paramNames family)
  have hEntry : ∀ name v, ⟨name, v⟩ ∈ params.toList → params.valueOf name = .ok v := by
    intro name v hMem
    exact valueOf_eq_ok_iff.mpr ((valueOf?_eq_some_iff hNodup).mpr hMem)
  refine ⟨hPerm, ?_, ?_, ?_⟩
  · intro p hp
    obtain ⟨v, hv, hNonneg⟩ := hNames p.name (hPerm.mem_iff.mp (mem_names hp))
    cases hv.symm.trans (hEntry _ _ hp)
    exact hNonneg
  · rintro rfl n hn
    obtain ⟨m, hm, hWhole⟩ := checkRestriction_power_iff.mp hRestriction
    cases hm.symm.trans (hEntry _ _ hn)
    exact hWhole
  · rintro rfl c hc
    obtain ⟨d, hd, hPositive⟩ := checkRestriction_sigmoid_iff.mp hRestriction
    cases hd.symm.trans (hEntry _ _ hc)
    exact hPositive

theorem Legal.checkRestriction (h : params.Legal family) :
    params.checkRestriction family = .ok () := by
  cases family with
  | power =>
    obtain ⟨n, hn, hMem⟩ := h.exists_valueOf (by decide : "n" ∈ Family.power.paramNames)
    exact checkRestriction_power_iff.mpr ⟨n, hn, h.whole rfl n hMem⟩
  | sigmoid =>
    obtain ⟨c, hc, hMem⟩ := h.exists_valueOf (by decide : "c" ∈ Family.sigmoid.paramNames)
    exact checkRestriction_sigmoid_iff.mpr ⟨c, hc, h.positive rfl c hMem⟩
  | swapper => rfl
  | augmented => rfl

theorem validate_eq_ok_iff_legal : params.validate family = .ok () ↔ params.Legal family := by
  constructor
  · exact legal_of_validate
  · intro h
    refine validate_eq_ok_iff.mpr ⟨?_, ?_, h.checkRestriction⟩
    · rw [← h.entered.length_eq, names, List.length_map]
      rfl
    · intro name hName
      obtain ⟨v, hv, hMem⟩ := h.exists_valueOf hName
      exact ⟨v, hv, h.nonneg ⟨name, v⟩ hMem⟩

theorem validateStrict_eq_ok_iff :
    params.validateStrict family = .ok () ↔ params.validate family = .ok () := by
  rw [validateStrict]
  split
  · rename_i name hRepeat
    constructor
    · intro h
      cases h
    · intro h
      have hNone := firstDuplicate?_eq_none_iff.mpr (legal_of_validate h).nodup
      rw [hNone] at hRepeat
      cases hRepeat
  · rfl

end Params

namespace Curve

variable {params reordered : Params} {family : Family} {curve : Curve}

/-- Every constant is the value entered under its name. -/
def Carries (params : Params) : Curve → Prop
  | power m n c => ⟨"m", m⟩ ∈ params.toList ∧
      (∃ v : Decimal, ⟨"n", v⟩ ∈ params.toList ∧ v.negative = false ∧ v.toRat = n.toNat) ∧
      ⟨"c", c⟩ ∈ params.toList
  | sigmoid a b c => ⟨"a", a⟩ ∈ params.toList ∧ ⟨"b", b⟩ ∈ params.toList ∧ ⟨"c", c⟩ ∈ params.toList
  | swapper => True
  | augmented d0 p0 theta kappa => ⟨"d0", d0⟩ ∈ params.toList ∧ ⟨"p0", p0⟩ ∈ params.toList ∧
      ⟨"theta", theta⟩ ∈ params.toList ∧ ⟨"kappa", kappa⟩ ∈ params.toList

theorem Carries.reorder (h : curve.Carries params) (hOrder : reordered.toList.Perm params.toList) :
    curve.Carries reordered := by
  cases curve with
  | swapper => trivial
  | power | sigmoid | augmented => simpa only [Carries, hOrder.mem_iff] using h

theorem legal_of_ofParams (h : ofParams family params = .ok curve) : params.Legal family := by
  obtain ⟨_, hValid, _⟩ := bind_eq_ok_iff.mp h
  exact Params.legal_of_validate hValid

theorem carries_of_ofParams (h : ofParams family params = .ok curve) :
    curve.family = family ∧ curve.Carries params := by
  have hLegal := legal_of_ofParams h
  obtain ⟨_, _, hCurve⟩ := bind_eq_ok_iff.mp h
  cases family with
  | power =>
    simp only [bind_eq_ok_iff, hLegal.valueOf_eq_ok_iff] at hCurve
    obtain ⟨m, hm, v, hv, n, hn, c, hc, hCurve⟩ := hCurve
    cases hCurve
    have hWhole := isInteger_iff.mpr (hLegal.whole rfl v hv)
    exact ⟨rfl, hm, ⟨v, hv, (toWord_eq_ok_iff hWhole).mp hn⟩, hc⟩
  | sigmoid =>
    simp only [bind_eq_ok_iff, hLegal.valueOf_eq_ok_iff] at hCurve
    obtain ⟨a, ha, b, hb, c, hc, hCurve⟩ := hCurve
    cases hCurve
    exact ⟨rfl, ha, hb, hc⟩
  | swapper =>
    cases hCurve
    exact ⟨rfl, trivial⟩
  | augmented =>
    simp only [bind_eq_ok_iff, hLegal.valueOf_eq_ok_iff] at hCurve
    obtain ⟨d0, hd0, p0, hp0, theta, hTheta, kappa, hKappa, hCurve⟩ := hCurve
    cases hCurve
    exact ⟨rfl, hd0, hp0, hTheta, hKappa⟩

theorem ofParams_of_carries (hLegal : params.Legal curve.family) (hCarries : curve.Carries params) :
    ofParams curve.family params = .ok curve := by
  apply bind_eq_ok_iff.mpr
  refine ⟨(), Params.validate_eq_ok_iff_legal.mpr hLegal, ?_⟩
  cases curve with
  | power m n c =>
    obtain ⟨hm, ⟨v, hv, hn⟩, hc⟩ := hCarries
    have hWhole := isInteger_iff.mpr (hLegal.whole rfl v hv)
    simp only [family, bind_eq_ok_iff, hLegal.valueOf_eq_ok_iff]
    exact ⟨m, hm, v, hv, n, (toWord_eq_ok_iff hWhole).mpr hn, c, hc, rfl⟩
  | sigmoid a b c =>
    obtain ⟨ha, hb, hc⟩ := hCarries
    simp only [family, bind_eq_ok_iff, hLegal.valueOf_eq_ok_iff]
    exact ⟨a, ha, b, hb, c, hc, rfl⟩
  | swapper => rfl
  | augmented d0 p0 theta kappa =>
    obtain ⟨hd0, hp0, hTheta, hKappa⟩ := hCarries
    simp only [family, bind_eq_ok_iff, hLegal.valueOf_eq_ok_iff]
    exact ⟨d0, hd0, p0, hp0, theta, hTheta, kappa, hKappa, rfl⟩

theorem ofParams_eq_ok_iff :
    ofParams family params = .ok curve ↔
      params.Legal family ∧ curve.family = family ∧ curve.Carries params := by
  constructor
  · intro h
    exact ⟨legal_of_ofParams h, carries_of_ofParams h⟩
  · rintro ⟨hLegal, rfl, hCarries⟩
    exact ofParams_of_carries hLegal hCarries

/-- The exponent, if there is one, fits a machine word; a zero under a minus sign does not. -/
def ExponentFits (params : Params) (family : Family) : Prop :=
  family = .power → ∀ n : Decimal, ⟨"n", n⟩ ∈ params.toList →
    n.toRat < 2 ^ 64 ∧ (n.mantissa = 0 → n.negative = false)

theorem exponentFits_of_ofParams (h : ofParams family params = .ok curve) :
    ExponentFits params family := by
  rintro rfl n hn
  obtain ⟨hLegal, hFamily, hCarries⟩ := ofParams_eq_ok_iff.mp h
  cases curve with
  | power m w c =>
    obtain ⟨_, ⟨v, hv, hSign, hValue⟩, _⟩ := hCarries
    -- there is one entry `n`
    cases (hLegal.valueOf_eq_ok_iff.mpr hv).symm.trans (hLegal.valueOf_eq_ok_iff.mpr hn)
    rw [hValue]
    exact ⟨by exact_mod_cast w.toNat_lt, fun _ => hSign⟩
  | sigmoid | swapper | augmented => cases hFamily

theorem exists_ofParams (hLegal : params.Legal family) (hFits : ExponentFits params family) :
    ∃ curve, ofParams family params = .ok curve := by
  have hEntry : ∀ name ∈ family.paramNames, ∃ v, ⟨name, v⟩ ∈ params.toList := by
    intro name hName
    obtain ⟨v, _, hv⟩ := hLegal.exists_valueOf hName
    exact ⟨v, hv⟩
  simp only [ofParams_eq_ok_iff]
  cases family with
  | power =>
    obtain ⟨m, hm⟩ := hEntry "m" (by decide)
    obtain ⟨v, hv⟩ := hEntry "n" (by decide)
    obtain ⟨c, hc⟩ := hEntry "c" (by decide)
    obtain ⟨k, hk⟩ := hLegal.whole rfl v hv
    obtain ⟨hBound, hZero⟩ := hFits rfl v hv
    have hSigned := hLegal.nonneg ⟨"n", v⟩ hv
    have hSign := negative_eq_false_of_nonneg hSigned hZero
    have hNonneg : 0 ≤ k := by
      rw [hk] at hSigned
      exact_mod_cast hSigned
    have hLess : k < 2 ^ 64 := by
      rw [hk] at hBound
      exact_mod_cast hBound
    have hSize : UInt64.size = 2 ^ 64 := rfl
    have hWord : (UInt64.ofNat k.toNat).toNat = k.toNat := UInt64.toNat_ofNat_of_lt' (by omega)
    have hValue : v.toRat = (UInt64.ofNat k.toNat).toNat := by
      rw [hWord, hk, ← Int.cast_natCast, Int.toNat_of_nonneg hNonneg]
    exact ⟨.power m (UInt64.ofNat k.toNat) c, hLegal, rfl, hm, ⟨v, hv, hSign, hValue⟩, hc⟩
  | sigmoid =>
    obtain ⟨a, ha⟩ := hEntry "a" (by decide)
    obtain ⟨b, hb⟩ := hEntry "b" (by decide)
    obtain ⟨c, hc⟩ := hEntry "c" (by decide)
    exact ⟨.sigmoid a b c, hLegal, rfl, ha, hb, hc⟩
  | swapper => exact ⟨.swapper, hLegal, rfl, trivial⟩
  | augmented =>
    obtain ⟨d0, hd0⟩ := hEntry "d0" (by decide)
    obtain ⟨p0, hp0⟩ := hEntry "p0" (by decide)
    obtain ⟨theta, hTheta⟩ := hEntry "theta" (by decide)
    obtain ⟨kappa, hKappa⟩ := hEntry "kappa" (by decide)
    exact ⟨.augmented d0 p0 theta kappa, hLegal, rfl, hd0, hp0, hTheta, hKappa⟩

end Curve

end BondingCurve
