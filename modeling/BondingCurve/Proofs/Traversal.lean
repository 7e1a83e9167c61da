import BondingCurve.Error
import Mathlib.Data.List.Forall2

/-!
# Lists read entry by entry

The first entry that fails ends a traversal. So it succeeds when every entry does, with the results in
order, and otherwise fails as the first failing entry fails.
-/

namespace BondingCurve

variable {α β : Type} {f : α → Except Error β} {as : List α} {bs : List β} {e : Error}

theorem mapM_eq_ok_iff_forall₂ : as.mapM f = .ok bs ↔ List.Forall₂ (fun a b => f a = .ok b) as bs := by
  induction as generalizing bs with
  | nil =>
    rw [List.mapM_nil, List.forall₂_nil_left_iff]
    exact ⟨fun h => (Except.ok.inj h).symm, fun h => congrArg Except.ok h.symm⟩
  | cons a as ih =>
    rw [List.mapM_cons, bind_eq_ok_iff, List.forall₂_cons_left_iff]
    constructor
    · rintro ⟨b, hFirst, h⟩
      obtain ⟨rest, hRest, hList⟩ := bind_eq_ok_iff.mp h
      exact ⟨b, rest, hFirst, ih.mp hRest, (Except.ok.inj hList).symm⟩
    · rintro ⟨b, rest, hFirst, hRest, rfl⟩
      exact ⟨b, hFirst, bind_eq_ok_iff.mpr ⟨rest, ih.mpr hRest, rfl⟩⟩

theorem exists_mapM_eq_ok_iff : (∃ bs, as.mapM f = .ok bs) ↔ ∀ a ∈ as, ∃ b, f a = .ok b := by
  simp only [mapM_eq_ok_iff_forall₂]
  induction as with
  | nil => simp
  | cons a as ih =>
    rw [List.forall_mem_cons, ← ih]
    constructor
    · rintro ⟨bs, h⟩
      obtain ⟨b, rest, hFirst, hRest, _⟩ := List.forall₂_cons_left_iff.mp h
      exact ⟨⟨b, hFirst⟩, rest, hRest⟩
    · rintro ⟨⟨b, hFirst⟩, rest, hRest⟩
      exact ⟨b :: rest, .cons hFirst hRest⟩

theorem mapM_eq_error_iff : as.mapM f = .error e ↔ ∃ before a after, as = before ++ a :: after ∧
    (∀ b ∈ before, ∃ c, f b = .ok c) ∧ f a = .error e := by
  induction as with
  | nil =>
    rw [List.mapM_nil]
    constructor
    · intro h
      cases h
    · rintro ⟨before, a, after, hList, _⟩
      simp at hList
  | cons first rest ih =>
    rw [List.mapM_cons]
    cases hFirst : f first with
    | error e' =>
      constructor
      · intro h
        cases h
        exact ⟨[], first, rest, rfl, by simp, hFirst⟩
      · rintro ⟨before, a, after, hList, hBefore, hFailed⟩
        obtain ⟨rfl, hRest⟩ | ⟨before', rfl, _⟩ := List.cons_eq_append_iff.mp hList
        · cases hRest
          rw [hFirst] at hFailed
          cases hFailed
          rfl
        · obtain ⟨c, hc⟩ := hBefore first List.mem_cons_self
          rw [hFirst] at hc
          cases hc
    | ok c =>
      have hSkip : (do let b ← Except.ok c; let bs ← rest.mapM f; pure (b :: bs)) = .error e ↔
          rest.mapM f = .error e := by
        cases rest.mapM f with
        | ok bs => exact ⟨fun h => (by cases h), fun h => (by cases h)⟩
        | error e' => exact Iff.rfl
      rw [hSkip, ih]
      constructor
      · rintro ⟨before, a, after, rfl, hBefore, hFailed⟩
        refine ⟨first :: before, a, after, rfl, ?_, hFailed⟩
        exact List.forall_mem_cons.mpr ⟨⟨c, hFirst⟩, hBefore⟩
      · rintro ⟨before, a, after, hList, hBefore, hFailed⟩
        obtain ⟨rfl, hRest⟩ | ⟨before', rfl, hRest⟩ := List.cons_eq_append_iff.mp hList
        · cases hRest
          rw [hFirst] at hFailed
          cases hFailed
        · exact ⟨before', a, after, hRest, fun b hb => hBefore b (List.mem_cons_of_mem _ hb), hFailed⟩

end BondingCurve
