import BondingCurve.Logged
import BondingCurve.Proofs.Decimal.Canonical

/-!
# Two runs that end alike

Two computations agree when both end in related values or both in errors of one kind. Agreement
passes through every way of combining computations. Checked arithmetic agrees on operands of the
same values.
-/

namespace BondingCurve

/-- Errors of one kind, whatever values they carry; violations are told apart too. -/
def Error.SameKind : Error → Error → Prop
  | .violation v, .violation v' => v.ctorIdx = v'.ctorIdx
  | e, e' => e.ctorIdx = e'.ctorIdx

theorem Error.SameKind.refl (e : Error) : e.SameKind e := by
  cases e <;> rfl

theorem Error.SameKind.symm {e e' : Error} (h : e.SameKind e') : e'.SameKind e := by
  unfold Error.SameKind at h ⊢
  split at h
  · exact h.symm
  · rename_i hOther
    split
    · exact absurd rfl (hOther _ _ rfl)
    · exact Eq.symm h

theorem Error.SameKind.eq_unsettledRoot {e e' : Error} (h : e.SameKind e') (hRoot : e = .unsettledRoot) :
    e' = .unsettledRoot := by
  cases hRoot
  cases e' with
  | unsettledRoot => rfl
  | _ => cases h

inductive Agree {α β : Type} (R : α → β → Prop) : Except Error α → Except Error β → Prop
  | ok {a : α} {b : β} (h : R a b) : Agree R (.ok a) (.ok b)
  | error {e e' : Error} (h : e.SameKind e') : Agree R (.error e) (.error e')

section Combinators

variable {α β γ δ : Type} {R : α → β → Prop} {S : γ → δ → Prop}

namespace Agree

variable {x : Except Error α} {y : Except Error β}

theorem refl (x : Except Error α) : Agree Eq x x := by
  cases x with
  | ok a => exact .ok rfl
  | error e => exact .error (.refl e)

theorem bind_of_eq_ok {f : α → Except Error γ} {g : β → Except Error δ} (h : Agree R x y)
    (hNext : ∀ a b, x = .ok a → y = .ok b → R a b → Agree S (f a) (g b)) :
    Agree S (x >>= f) (y >>= g) := by
  cases h with
  | ok hab => exact hNext _ _ rfl rfl hab
  | error hKind => exact .error hKind

theorem bind {f : α → Except Error γ} {g : β → Except Error δ} (h : Agree R x y)
    (hNext : ∀ a b, R a b → Agree S (f a) (g b)) : Agree S (x >>= f) (y >>= g) :=
  h.bind_of_eq_ok fun a b _ _ => hNext a b

theorem eq_ok {x' : Except Error α} {a : α} (h : Agree Eq x x') (hx : x = .ok a) : x' = .ok a := by
  cases h with
  | ok hSame => rw [← hSame, hx]
  | error => cases hx

theorem exists_error {e : Error} (h : Agree R x y) (hx : x = .error e) : ∃ e', y = .error e' ∧ e.SameKind e' := by
  cases h with
  | ok => cases hx
  | error hKind =>
    cases hx
    exact ⟨_, rfl, hKind⟩

end Agree

theorem agree_refuseIf {p q : Prop} [Decidable p] [Decidable q] {e e' : Error} (h : p ↔ q)
    (hKind : e.SameKind e') : Agree Eq (refuseIf p e) (refuseIf q e') := by
  by_cases hp : p
  · rw [refuseIf, refuseIf, if_pos hp, if_pos (h.mp hp)]
    exact .error hKind
  · rw [refuseIf, refuseIf, if_neg hp, if_neg (mt h.mpr hp)]
    exact .ok rfl

namespace Logged

variable {x : Logged α} {y : Logged β}

theorem agree_bind_of_eq_ok {f : α → Logged γ} {g : β → Logged δ} (h : Agree R x.outcome y.outcome)
    (hNext : ∀ a b, x.outcome = .ok a → y.outcome = .ok b → R a b →
      Agree S (f a).outcome (g b).outcome) :
    Agree S (x >>= f).outcome (y >>= g).outcome := by
  rw [outcome_bind, outcome_bind]
  exact h.bind_of_eq_ok hNext

theorem agree_bind {f : α → Logged γ} {g : β → Logged δ} (h : Agree R x.outcome y.outcome)
    (hNext : ∀ a b, R a b → Agree S (f a).outcome (g b).outcome) :
    Agree S (x >>= f).outcome (y >>= g).outcome :=
  agree_bind_of_eq_ok h fun a b _ _ => hNext a b

theorem agree_violateIf {p q : Prop} [Decidable p] [Decidable q] {v v' : Violation} (h : p ↔ q)
    (hKind : (Error.violation v).SameKind (.violation v')) :
    Agree Eq (violateIf p v).outcome (violateIf q v').outcome := by
  by_cases hp : p
  · rw [violateIf, violateIf, if_pos hp, if_pos (h.mp hp)]
    exact .error hKind
  · rw [violateIf, violateIf, if_neg hp, if_neg (mt h.mpr hp)]
    exact .ok rfl

theorem agree_recover {x y : Logged α} {f g : Error → Logged α} (h : Agree Eq x.outcome y.outcome)
    (hNext : ∀ e e', Agree Eq (f e).outcome (g e').outcome) :
    Agree Eq (x.recover f).outcome (y.recover g).outcome := by
  cases hx : x.outcome with
  | ok a =>
    rw [recover_ok hx, recover_ok (h.eq_ok hx)]
    exact h
  | error e =>
    obtain ⟨e', hy, hKind⟩ := h.exists_error hx
    by_cases hRoot : e = .unsettledRoot
    · rw [hRoot] at hx
      rw [hKind.eq_unsettledRoot hRoot] at hy
      rw [recover_unsettledRoot hx, recover_unsettledRoot hy]
      exact h
    · rw [recover_error hx hRoot, recover_error hy (mt hKind.symm.eq_unsettledRoot hRoot)]
      exact hNext e e'

theorem agree_mapM {ι : Type} {f g : ι → Logged α} (h : ∀ i, Agree Eq (f i).outcome (g i).outcome)
    (items : List ι) : Agree Eq (items.mapM f).outcome (items.mapM g).outcome := by
  induction items with
  | nil =>
    rw [List.mapM_nil, List.mapM_nil]
    exact .refl _
  | cons i items ih =>
    rw [List.mapM_cons, List.mapM_cons]
    refine agree_bind (h i) fun a b hFirst => ?_
    refine agree_bind ih fun as bs hRest => ?_
    rw [hFirst, hRest]
    exact .refl _

end Logged

end Combinators

namespace Decimal

variable {x x' y y' : Decimal}

def SameValue (x y : Decimal) : Prop := x.toRat = y.toRat

theorem SameValue.lt_iff (hx : SameValue x x') (hy : SameValue y y') : x < y ↔ x' < y' := by
  rw [lt_iff_toRat_lt, lt_iff_toRat_lt, hx, hy]

theorem SameValue.le_iff (hx : SameValue x x') (hy : SameValue y y') : x ≤ y ↔ x' ≤ y' := by
  rw [le_iff_toRat_le, le_iff_toRat_le, hx, hy]

theorem SameValue.isZero_eq (h : SameValue x y) : x.isZero = y.isZero := by
  rw [Bool.eq_iff_iff, isZero_iff_toRat, isZero_iff_toRat, h]

theorem SameValue.refl (x : Decimal) : SameValue x x := rfl

theorem agree_checked {operation : Operation} {o o' : Option Decimal}
    (h : o.map toRat = o'.map toRat) : Agree SameValue (checked operation o) (checked operation o') := by
  cases o with
  | none =>
    cases o' with
    | none => exact .error (.refl _)
    | some y => cases h
  | some x =>
    cases o' with
    | none => cases h
    | some y => exact .ok (Option.some.inj h)

theorem agree_add (hx : SameValue x x') (hy : SameValue y y') : Agree SameValue (x.add y) (x'.add y') :=
  agree_checked (map_toRat_add? hx hy)

theorem agree_sub (hx : SameValue x x') (hy : SameValue y y') : Agree SameValue (x.sub y) (x'.sub y') :=
  agree_checked (map_toRat_sub? hx hy)

theorem agree_mul (hx : SameValue x x') (hy : SameValue y y') : Agree SameValue (x.mul y) (x'.mul y') :=
  agree_checked (map_toRat_mul? hx hy)

theorem agree_quo (hx : SameValue x x') (hy : SameValue y y') : Agree SameValue (x.quo y) (x'.quo y') :=
  agree_checked (map_toRat_div? hx hy)

theorem agree_power {n : UInt64} (hx : 0 ≤ x.toRat) (h : SameValue x y)
    (hAgree : PowersAgree n.toNat x y) : Agree SameValue (x.power n) (y.power n) :=
  agree_checked (map_toRat_pow?_eq hx h hAgree)

theorem agree_root (hx : 0 < x.toRat) (h : SameValue x y) : Agree SameValue x.root y.root := by
  have hIteration := map_toRat_rootIteration h roundLimit
  rw [root, root, rootWithin, rootWithin, sqrtWithin_of_pos hx, sqrtWithin_of_pos (h ▸ hx)]
  cases hr : x.rootIteration roundLimit with
  | none =>
    rw [hr] at hIteration
    rw [Option.map_eq_none_iff.mp hIteration.symm]
    exact .error (.refl _)
  | some r =>
    rw [hr] at hIteration
    obtain ⟨r', hr', hSame⟩ := Option.map_eq_some_iff.mp hIteration.symm
    rw [hr']
    exact .ok hSame.symm

theorem agree_ensureNonNegative (h : SameValue x y) (name : String) :
    Agree Eq (x.ensureNonNegative name) (y.ensureNonNegative name) :=
  agree_refuseIf (h.lt_iff rfl) (.refl _)

end Decimal

end BondingCurve
