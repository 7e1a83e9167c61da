import BondingCurve.Proofs.Agreement
import BondingCurve.Proofs.Quote
import Mathlib.Data.List.Forall2

/-!
# Curves depend on values only

Parameters are alike when they differ in the scale of their decimals at most, and so are the curves
made of them. Prices and integrals of alike curves have one value, with one exception: above exponent
1023 the power of a supply is taken from its digits, not from its value.
-/

namespace BondingCurve

open Decimal

theorem rel_find? {α β : Type} {R : α → β → Prop} {p : α → Bool} {q : β → Bool}
    (hTests : ∀ a b, R a b → p a = q b) {as : List α} {bs : List β} (h : List.Forall₂ R as bs) :
    Option.Rel R (as.find? p) (bs.find? q) := by
  induction h with
  | nil => exact .none
  | cons hFirst _ ih =>
    rw [List.find?_cons, List.find?_cons, hTests _ _ hFirst]
    split
    · exact .some hFirst
    · exact ih

namespace Decimal

variable {x y : Decimal}

/-- The same value under the same sign. Only a zero can carry the other sign. -/
def Alike (x y : Decimal) : Prop := SameValue x y ∧ x.negative = y.negative

theorem mantissa_truncateUnits (h : SameValue x y) :
    x.truncateUnits.mantissa = y.truncateUnits.mantissa := by
  have hUnits : x.truncateUnits.toRat = y.truncateUnits.toRat := toRat_truncateTo_eq h
  have hRat : (x.truncateUnits.mantissa : ℚ) = y.truncateUnits.mantissa := by
    rw [← abs_toRat_truncateUnits, ← abs_toRat_truncateUnits, hUnits]
  exact_mod_cast hRat

theorem Alike.toWord_eq (h : x.Alike y) (name : String) : x.toWord name = y.toWord name := by
  rw [toWord, toWord, toWord?, toWord?, mantissa_truncateUnits h.1, h.2]

end Decimal

structure Param.Alike (p q : Param) : Prop where
  name : p.name = q.name
  value : p.value.Alike q.value

namespace Params

variable {params params' : Params} {family : Family}

def Alike (params params' : Params) : Prop := List.Forall₂ Param.Alike params.toList params'.toList

theorem agree_valueOf (h : params.Alike params') (name : String) :
    Agree Decimal.Alike (params.valueOf name) (params'.valueOf name) := by
  have hNames : ∀ p q : Param, p.Alike q → (p.name == name) = (q.name == name) := by
    intro p q hParam
    rw [hParam.name]
  have hFound := rel_find? hNames (List.rel_reverse h)
  rw [valueOf, valueOf, valueOf?, valueOf?]
  cases hp : params.toList.reverse.find? (·.name == name) with
  | none =>
    cases hq : params'.toList.reverse.find? (·.name == name) with
    | none => exact .error (.refl _)
    | some q =>
      rw [hp, hq] at hFound
      cases hFound
  | some p =>
    cases hq : params'.toList.reverse.find? (·.name == name) with
    | none =>
      rw [hp, hq] at hFound
      cases hFound
    | some q =>
      rw [hp, hq] at hFound
      cases hFound with
      | some hParam => exact .ok hParam.value

theorem agree_checkNamed (h : params.Alike params') (name : String) :
    Agree Eq (params.checkNamed name) (params'.checkNamed name) :=
  (agree_valueOf h name).bind fun _ _ hValue => agree_ensureNonNegative hValue.1 _

theorem agree_checkNames (h : params.Alike params') (names : List String) :
    Agree Eq (names.forM params.checkNamed) (names.forM params'.checkNamed) := by
  induction names with
  | nil => exact .ok rfl
  | cons name names ih => exact (agree_checkNamed h name).bind fun _ _ _ => ih

theorem agree_checkRestriction (h : params.Alike params') (family : Family) :
    Agree Eq (params.checkRestriction family) (params'.checkRestriction family) := by
  cases family with
  | power =>
    exact (agree_valueOf h "n").bind fun _ _ hValue =>
      agree_refuseIf (not_congr (isInteger_congr hValue.1)) (.refl _)
  | sigmoid =>
    exact (agree_valueOf h "c").bind fun _ _ hValue =>
      agree_refuseIf (hValue.1.le_iff rfl) (.refl _)
  | swapper => exact .ok rfl
  | augmented => exact .ok rfl

theorem agree_validate (h : params.Alike params') (family : Family) :
    Agree Eq (params.validate family) (params'.validate family) := by
  have hSize : params.size = params'.size := List.Forall₂.length_eq h
  rw [validate, validate]
  refine Agree.bind (R := Eq) (agree_refuseIf (by rw [hSize]) rfl) fun _ _ _ => ?_
  refine (agree_checkNames h _).bind fun _ _ _ => ?_
  exact agree_checkRestriction h family

end Params

namespace Curve

variable {curve curve' : Curve} {x x' : Decimal} {k : Nat}

/-- Curves of one family with constants of the same values; `c` keeps the radicands positive. -/
inductive Alike : Curve → Curve → Prop
  | power {m m' c c' : Decimal} {n : UInt64} (hm : SameValue m m') (hc : SameValue c c') :
      Alike (.power m n c) (.power m' n c')
  | sigmoid {a a' b b' c c' : Decimal} (ha : SameValue a a') (hb : SameValue b b')
      (hc : SameValue c c') (hPos : 0 < c.toRat) : Alike (.sigmoid a b c) (.sigmoid a' b' c')
  | swapper : Alike .swapper .swapper

/-- The powers that a power curve takes of two supplies agree, of its exponent and `k` more. -/
def PowersAgree (k : Nat) (x y : Decimal) : Curve → Prop
  | power _ n _ => Decimal.PowersAgree (n.toNat + k) x y
  | _ => True

theorem agree_ofParams {params params' : Params} {family : Family} (h : params.Alike params')
    (hFamily : family ≠ .augmented) :
    Agree Alike (ofParams family params) (ofParams family params') := by
  refine (Params.agree_validate h family).bind_of_eq_ok fun _ _ hValid _ _ => ?_
  cases family with
  | power =>
    refine (Params.agree_valueOf h "m").bind fun m m' hm => ?_
    refine (Params.agree_valueOf h "n").bind fun n n' hn => ?_
    rw [hn.toWord_eq]
    refine (Agree.refl _).bind fun e e' hExponent => ?_
    refine (Params.agree_valueOf h "c").bind fun c c' hc => ?_
    rw [← hExponent]
    exact .ok (.power hm.1 hc.1)
  | sigmoid =>
    refine (Params.agree_valueOf h "a").bind fun a a' ha => ?_
    refine (Params.agree_valueOf h "b").bind fun b b' hb => ?_
    refine (Params.agree_valueOf h "c").bind_of_eq_ok fun c c' hEntry _ hc => ?_
    have hLegal := Params.legal_of_validate hValid
    exact .ok (.sigmoid ha.1 hb.1 hc.1 (hLegal.positive rfl c (hLegal.valueOf_eq_ok_iff.mp hEntry)))
  | swapper => exact .ok .swapper
  | augmented => exact absurd rfl hFamily

section Sigmoid

variable {b b' c c' : Decimal}

theorem agree_sigmoidRoot (hx : SameValue x x') (hb : SameValue b b') (hc : SameValue c c')
    (hPos : 0 < c.toRat) :
    Agree (fun p q => SameValue p.1 q.1 ∧ SameValue p.2 q.2) (sigmoidRoot x b c)
      (sigmoidRoot x' b' c') := by
  refine (agree_sub hx hb).bind fun y y' hy => ?_
  refine (agree_mul hy hy).bind_of_eq_ok fun s s' hSquare _ hs => ?_
  refine (agree_add hs hc).bind_of_eq_ok fun r r' hRadicand _ hr => ?_
  exact (agree_root (radicand_pos hPos hSquare hRadicand) hr).bind fun q q' hq => .ok ⟨hy, hq⟩

end Sigmoid

theorem agree_priceAt (hx : 0 ≤ x.toRat) (h : SameValue x x') (hCurve : curve.Alike curve')
    (hAgree : curve.PowersAgree 0 x x') : Agree SameValue (curve.priceAt x) (curve'.priceAt x') := by
  cases hCurve with
  | power hm hc =>
    refine (agree_power hx h hAgree).bind fun p p' hp => ?_
    exact (agree_mul hp hm).bind fun q q' hq => agree_add hq hc
  | sigmoid ha hb hc hPos =>
    refine (agree_sigmoidRoot h hb hc hPos).bind fun p p' hp => ?_
    refine (agree_quo hp.1 hp.2).bind fun q q' hq => ?_
    exact (agree_add hq (.refl 1)).bind fun r r' hr => agree_mul ha hr
  | swapper => exact .error (.refl _)

theorem agree_powerIntegral {m m' c c' : Decimal} {n : UInt64} (hx : 0 ≤ x.toRat) (h : SameValue x x')
    (hm : SameValue m m') (hc : SameValue c c') (hAgree : Decimal.PowersAgree (n.toNat + 1) x x') :
    Agree SameValue (powerIntegral m n c x) (powerIntegral m' n c' x') := by
  refine (Agree.refl _).bind_of_eq_ok fun _ _ hGuard _ _ => ?_
  rw [← toNat_succ (refuseIf_eq_ok_iff.mp hGuard)] at hAgree
  refine (agree_power hx h hAgree).bind fun p p' hp => ?_
  refine (agree_mul hp hm).bind fun q q' hq => ?_
  refine (agree_quo hq (.refl _)).bind fun r r' hr => ?_
  exact (agree_mul h hc).bind fun s s' hs => agree_add hr hs

theorem agree_sigmoidIntegral {a a' b b' c c' : Decimal} (h : SameValue x x') (ha : SameValue a a')
    (hb : SameValue b b') (hc : SameValue c c') (hPos : 0 < c.toRat) :
    Agree SameValue (sigmoidIntegral a b c x) (sigmoidIntegral a' b' c' x') := by
  refine (agree_sigmoidRoot h hb hc hPos).bind fun p p' hp => ?_
  refine (agree_add hp.2 h).bind fun s s' hs => ?_
  refine (agree_mul ha hs).bind fun u u' hu => ?_
  refine (agree_mul hb hb).bind_of_eq_ok fun q q' hSquare _ hq => ?_
  refine (agree_add hq hc).bind_of_eq_ok fun r r' hRadicand _ hr => ?_
  refine (agree_root (radicand_pos hPos hSquare hRadicand) hr).bind fun t t' ht => ?_
  exact (agree_mul ha ht).bind fun l l' hl => agree_sub hu hl

theorem agree_integral (hx : 0 ≤ x.toRat) (h : SameValue x x') (hCurve : curve.Alike curve')
    (hAgree : curve.PowersAgree 1 x x') :
    Agree SameValue (curve.integral x).outcome (curve'.integral x').outcome := by
  cases hCurve with
  | power hm hc => exact agree_powerIntegral hx h hm hc hAgree
  | sigmoid ha hb hc hPos => exact agree_sigmoidIntegral h ha hb hc hPos
  | swapper => exact .error (.refl _)

end Curve

end BondingCurve
