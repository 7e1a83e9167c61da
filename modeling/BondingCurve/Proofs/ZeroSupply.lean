import BondingCurve.Proofs.Violations

/-!
# The reserve at supply zero

A closed form of legal constants fails only by overflow or at a root that does not settle: what a sigmoid
takes the root of is positive, and nothing else in a formula refuses its argument. At supply zero both roots
of a sigmoid are the root at its origin. Where that settles they cancel to the last digit, and nothing is left
to be negative. Where it does not, there is no reserve at zero.
-/

namespace BondingCurve

open Logged Decimal

namespace OverflowOnly

variable {params : Params} {name : String} {family : Family}

theorem valueOf (h : params.Legal family) (hName : name ∈ family.paramNames) :
    OverflowOnly (params.valueOf name) := by
  obtain ⟨v, hv, _⟩ := h.exists_valueOf hName
  rw [hv]
  exact ok v

/-- Legal parameters make a curve unless the exponent is too long for a word. -/
theorem ofParams (h : params.Legal family) : OverflowOnly (Curve.ofParams family params) := by
  have hAccepted : OverflowOnly (params.validate family) := by
    rw [Params.validate_eq_ok_iff_legal.mpr h]
    exact ok ()
  refine hAccepted.bind fun _ _ => ?_
  cases family with
  | power =>
    refine (valueOf h (by decide)).bind fun _ _ => (valueOf h (by decide)).bind fun _ _ => ?_
    exact (toWord _ _).bind fun _ _ => (valueOf h (by decide)).bind fun _ _ => ok _
  | sigmoid =>
    refine (valueOf h (by decide)).bind fun _ _ => (valueOf h (by decide)).bind fun _ _ => ?_
    exact (valueOf h (by decide)).bind fun _ _ => ok _
  | swapper => exact ok _
  | augmented =>
    refine (valueOf h (by decide)).bind fun _ _ => (valueOf h (by decide)).bind fun _ _ => ?_
    exact (valueOf h (by decide)).bind fun _ _ => (valueOf h (by decide)).bind fun _ _ => ok _

theorem powerIntegral (m : Decimal) (n : UInt64) (c x : Decimal) :
    OverflowOnly (Curve.powerIntegral m n c x) := by
  have hGuard : OverflowOnly (refuseIf (n.toNat + 1 = UInt64.size) (.arithmeticOverflow .powerExponent)) := by
    rw [refuseIf]
    split
    · exact overflow _
    · exact ok ()
  refine hGuard.bind fun _ _ => (checked _ _).bind fun _ _ => (checked _ _).bind fun _ _ => ?_
  exact (checked _ _).bind fun _ _ => (checked _ _).bind fun _ _ => checked _ _

end OverflowOnly

namespace Curve

variable {a b c x : Decimal}

/-- The iteration for the root at the origin is given up. -/
def OriginUnsettled : Curve → Prop
  | sigmoid _ b c => ∃ radicand, originRadicand b c = .ok radicand ∧ radicand.sqrtWithin roundLimit = .unsettled
  | _ => False

theorem originRoot_of_unsettled (h : (sigmoid a b c).OriginUnsettled) :
    originRoot b c = .error .unsettledRoot := by
  obtain ⟨radicand, hRadicand, hUnsettled⟩ := h
  rw [originRoot, hRadicand]
  change radicand.root = _
  rw [root, rootWithin, hUnsettled]

theorem overflowOnly_originRoot (hc : 0 < c.toRat) (h : ¬(sigmoid a b c).OriginUnsettled) :
    OverflowOnly (originRoot b c) := by
  have hRadicand : OverflowOnly (originRadicand b c) := (OverflowOnly.checked _ _).bind fun _ _ => .checked _ _
  refine hRadicand.bind fun radicand hSum e hError => ?_
  obtain ⟨hUnsettled, _⟩ := (rootWithin_eq_error_iff (originRadicand_pos hc hSum)).mp hError
  exact absurd ⟨radicand, hSum, hUnsettled⟩ h

theorem overflowOnly_sigmoidIntegral (hb : 0 ≤ b.toRat) (hc : 0 < c.toRat) (hx : x.toRat = 0)
    (h : ¬(sigmoid a b c).OriginUnsettled) : OverflowOnly (sigmoidIntegral a b c x) := by
  rw [sigmoidIntegral_of_zero hb hx]
  refine (overflowOnly_originRoot hc h).bind fun _ _ => (OverflowOnly.checked _ _).bind fun _ _ => ?_
  exact (OverflowOnly.checked _ _).bind fun _ _ => (OverflowOnly.checked _ _).bind fun _ _ => .checked _ _

end Curve

namespace Bond

variable {bond : Bond} {curve : Curve} {x : Decimal}

def OriginUnsettled (bond : Bond) : Prop := ∃ curve, bond.curve = .ok curve ∧ curve.OriginUnsettled

namespace ClosedForm

theorem overflowOnly_integral (h : ClosedForm bond) (hCurve : bond.curve = .ok curve) (hZero : x.toRat = 0)
    (hSettled : ¬curve.OriginUnsettled) : OverflowOnly (curve.integral x).outcome := by
  rcases h.curve_cases hCurve with ⟨m, n, c, rfl, _⟩ | ⟨a, b, c, rfl, _, hb, hc⟩
  · exact .powerIntegral m n c x
  · exact Curve.overflowOnly_sigmoidIntegral hb hc hZero hSettled

theorem integral_of_unsettled (h : ClosedForm bond) (hCurve : bond.curve = .ok curve) (hZero : x.toRat = 0)
    (hUnsettled : curve.OriginUnsettled) : (curve.integral x).outcome = .error .unsettledRoot := by
  rcases h.curve_cases hCurve with ⟨m, n, c, rfl, _⟩ | ⟨a, b, c, rfl, _, hb, _⟩
  · exact hUnsettled.elim
  · change Curve.sigmoidIntegral a b c x = _
    rw [Curve.sigmoidIntegral_of_zero hb hZero, Curve.originRoot_of_unsettled hUnsettled]
    rfl

theorem integral_zero (h : ClosedForm bond) (hCurve : bond.curve = .ok curve) (hZero : x.toRat = 0)
    {exact : Decimal} (hExact : (curve.integral x).outcome = .ok exact) : exact.quantize = 0 := by
  have hValue : exact.toRat = (0 : Decimal).toRat := by
    rw [toRat_zero]
    rcases h.curve_cases hCurve with ⟨m, n, c, rfl, _⟩ | ⟨a, b, c, rfl, _, hb, _⟩
    · exact Curve.powerIntegral_zero hZero hExact
    · exact Curve.sigmoidIntegral_zero hb hZero hExact
  rw [quantize_eq hValue]
  rfl

end ClosedForm

theorem curveIntegral_outcome_of_nonneg (h : 0 ≤ x.toRat) :
    (bond.curveIntegral x).outcome = bond.curve >>= fun curve => (bond.integralOf curve x).outcome := by
  have hSign : x.ensureNonNegative "supply" = .ok () := ensureNonNegative_eq_ok_iff.mpr h
  rw [curveIntegral, hSign, outcome_bind, outcome_bind]
  rfl

theorem ClosedForm.overflowOnly_curveIntegral (h : ClosedForm bond) (hLegal : bond.params.Legal bond.family)
    (hZero : x.toRat = 0) (hSettled : ¬bond.OriginUnsettled) : OverflowOnly (bond.curveIntegral x).outcome := by
  rw [curveIntegral_outcome_of_nonneg hZero.ge]
  refine OverflowOnly.bind (.ofParams hLegal) fun curve hCurve => ?_
  rw [integralOf, outcome_bind]
  have hOrigin : ¬curve.OriginUnsettled := fun hUnsettled => hSettled ⟨curve, hCurve, hUnsettled⟩
  refine OverflowOnly.bind (h.overflowOnly_integral hCurve hZero hOrigin) fun exact hExact => ?_
  rw [h.integral_zero hCurve hZero hExact]
  exact .ok 0

theorem ClosedForm.curveIntegral_of_unsettled (h : ClosedForm bond) (hZero : x.toRat = 0)
    (hUnsettled : bond.OriginUnsettled) : (bond.curveIntegral x).outcome = .error .unsettledRoot := by
  obtain ⟨curve, hCurve, hOrigin⟩ := hUnsettled
  rw [curveIntegral_outcome_of_nonneg hZero.ge, hCurve]
  change (bond.integralOf curve x).outcome = _
  rw [integralOf, outcome_bind, h.integral_of_unsettled hCurve hZero hOrigin]
  rfl

/-- The square of `b` has more digits than fit. -/
def roundedSigmoid : Bond := sigmoidBond (.scaled 7 3) (.scaled 123456789012345678901 13) (.scaled 1 28)

/-- The square of `b` is out of range. -/
def overlongSigmoid : Bond := sigmoidBond 1 (.units (10 ^ 15)) 1

def restlessSigmoid : Bond := sigmoidBond 1 0 restless

theorem restlessSigmoid_originUnsettled : restlessSigmoid.OriginUnsettled := by
  have hCurve : restlessSigmoid.curve = .ok (.sigmoid 1 0 restless) := by decide +kernel
  have hRadicand : Curve.originRadicand 0 restless = .ok restless := by decide +kernel
  exact ⟨_, hCurve, restless, hRadicand, sqrtWithin_restless roundLimit⟩

/-- A zero under a minus sign, with three fractional digits. -/
def longZero : Decimal := (Decimal.scaled 0 3).negate

end Bond

end BondingCurve
