import BondingCurve.Proofs.Quote

/-!
# A smaller supply needs no larger reserve

Around one unit of supply the sums and differences of supplies are exact, which is where a power
with a large exponent can be taken at all. So for a power bond every supply that is burned down, or
that was minted from, is backed by at most the reserve of the larger one.
-/

namespace BondingCurve

namespace Decimal

variable {x y z : Decimal}

theorem under_sub {e : Nat} (hy : 0 ≤ y.toRat) (hLe : y.toRat ≤ x.toRat)
    (h : x.sub? y = some z) (hRange : e < 1024 ∨ x.toRat < 2) : Under e z x := by
  have hRounds := (computes_sub? x y).rounds h
  have hBelow : Below z x :=
    ⟨hRounds.nonneg (sub_nonneg.mpr hLe), hRounds.ge_of_exact x.exact_toRat (by linarith)⟩
  refine ⟨hBelow, hRange.imp_right fun hTwo => ?_⟩
  by_cases hxZero : x.mantissa = 0
  · have := toRat_eq_zero_iff.mpr hxZero
    exact .inr (.inr (le_antisymm (this ▸ hBelow.2) hBelow.1))
  by_cases hyZero : y.mantissa = 0
  · unfold sub? at h
    rw [if_neg hxZero, if_pos hyZero] at h
    exact .inr (.inl (Option.some_inj.mp h).symm)
  · left
    have hGrid := (onGrid_toRat x.scale_le).sub (onGrid_toRat y.scale_le)
    have hExact := exact_of_lt_two hGrid (sub_nonneg.mpr hLe) (by linarith)
    have hPos : 0 < y.toRat := lt_of_le_of_ne hy (Ne.symm (mt toRat_eq_zero_iff.mp hyZero))
    rw [hRounds.eq_of_exact hExact]
    linarith

theorem under_add {e : Nat} (hx : 0 ≤ x.toRat) (hy : 0 ≤ y.toRat) (h : x.add? y = some z)
    (hRange : e < 1024 ∨ z.toRat < 2) : Under e x z := by
  have hRounds := (computes_add? x y).rounds h
  have hBelow : Below x z := ⟨hx, hRounds.le_of_exact x.exact_toRat (by linarith)⟩
  refine ⟨hBelow, hRange.imp_right fun hTwo => ?_⟩
  by_cases hxZero : x.mantissa = 0
  · exact .inr (.inr (toRat_eq_zero_iff.mpr hxZero))
  by_cases hyZero : y.mantissa = 0
  · unfold add? at h
    rw [if_neg hxZero, if_pos hyZero] at h
    exact .inr (.inl (Option.some_inj.mp h))
  · left
    have hSum : x.toRat + y.toRat < 2 := by
      by_contra hLarge
      have := hRounds.le_of_exact ⟨ofNat 2, toRat_ofNat 2 (by decide)⟩ (not_lt.mp hLarge)
      push_cast at this
      linarith
    have hGrid := (onGrid_toRat x.scale_le).add (onGrid_toRat y.scale_le)
    have hExact := exact_of_lt_two hGrid (add_nonneg hx hy) hSum
    have hPos : 0 < y.toRat := lt_of_le_of_ne hy (Ne.symm (mt toRat_eq_zero_iff.mp hyZero))
    rw [hRounds.eq_of_exact hExact]
    linarith

end Decimal

namespace Bond

variable {bond : Bond} {x y amount total I J : Decimal}

/-- The exponent of the integral of a power bond. -/
def IntegralExponent (bond : Bond) (e : Nat) : Prop :=
  ∃ m n c, bond.curve = .ok (.power m n c) ∧ e = n.toNat + 1

theorem exists_exponent (hPower : bond.family = .power)
    (hI : (bond.curveIntegral x).outcome = .ok I) : ∃ e, bond.IntegralExponent e := by
  obtain ⟨_, curve, hCurve, _⟩ := curveIntegral_eq_ok_iff.mp hI
  have hForm := hCurve
  unfold Bond.curve at hForm
  rw [hPower] at hForm
  obtain ⟨m, n, c, rfl, _⟩ := Curve.ofParams_power hForm
  exact ⟨_, m, n, c, hCurve, rfl⟩

theorem IntegralExponent.exact_eq_ok {e : Nat} (h : bond.IntegralExponent e)
    (hI : (bond.curveIntegral x).outcome = .ok I) :
    ∃ m n c exact, bond.curve = .ok (.power m n c) ∧ e = n.toNat + 1 ∧
      Curve.powerIntegral m n c x = .ok exact ∧ exact.quantize = I := by
  obtain ⟨m, n, c, hCurve, rfl⟩ := h
  obtain ⟨_, exact, hExact, hQuantize, _⟩ := exists_reserve_of_curveIntegral hCurve hI
  exact ⟨m, n, c, exact, hCurve, rfl, hExact, hQuantize⟩

/-- Where the larger supply is backed, so is the smaller, by no larger reserve. -/
theorem ClosedForm.curveIntegral_below {e : Nat} (h : ClosedForm bond) (hPower : bond.IntegralExponent e)
    (hUnder : Decimal.Under e x y) (hJ : (bond.curveIntegral y).outcome = .ok J) :
    ∃ I, (bond.curveIntegral x).outcome = .ok I ∧ I.toRat ≤ J.toRat := by
  obtain ⟨m, n, c, exact, hCurve, rfl, hExact, rfl⟩ := hPower.exact_eq_ok hJ
  obtain ⟨hm, hc⟩ := h.power_signs hCurve
  obtain ⟨smaller, hSmaller, hBelow⟩ := Curve.follows_powerIntegral hm hc hUnder exact
    (toOption_eq_some_iff.mpr hExact)
  rw [toOption_eq_some_iff] at hSmaller
  have hQuantized := Decimal.below_quantize hBelow
  exact ⟨smaller.quantize, curveIntegral_eq_ok_iff.mpr ⟨hUnder.1.1, _, hCurve,
    integralOf_eq_ok_iff.mpr ⟨smaller, hSmaller, rfl, hQuantized.1⟩⟩, hQuantized.2⟩

theorem IntegralExponent.lt_two {e : Nat} (h : bond.IntegralExponent e)
    (hI : (bond.curveIntegral x).outcome = .ok I) : e < 1024 ∨ x.toRat < 2 := by
  obtain ⟨m, n, c, exact, _, rfl, hExact, _⟩ := h.exact_eq_ok hI
  rcases Nat.lt_or_ge (n.toNat + 1) 1024 with hSmall | hLarge
  · exact .inl hSmall
  · exact .inr (Curve.lt_two_of_powerIntegral hLarge hExact)

/-- Below exponent 1024 it does not matter how a supply is written. -/
theorem ClosedForm.curveIntegral_congr {e : Nat} (h : ClosedForm bond) (hPower : bond.IntegralExponent e)
    (hSmall : e < 1024) (hEqual : x.toRat = y.toRat) (hI : (bond.curveIntegral x).outcome = .ok I) :
    ∃ J, (bond.curveIntegral y).outcome = .ok J ∧ J.toRat = I.toRat := by
  obtain ⟨hx, _⟩ := curveIntegral_eq_ok_iff.mp hI
  have hUnder : Decimal.Under e y x := ⟨⟨hEqual ▸ hx, hEqual.ge⟩, .inl hSmall⟩
  obtain ⟨J, hJ, hLe⟩ := h.curveIntegral_below hPower hUnder hI
  obtain ⟨I', hI', hGe⟩ := h.curveIntegral_below hPower ⟨⟨hx, hEqual.le⟩, .inl hSmall⟩ hJ
  cases hI'.symm.trans hI
  exact ⟨J, hJ, le_antisymm hLe hGe⟩

theorem ClosedForm.curveIntegral_sub (h : ClosedForm bond) (hPower : bond.family = .power)
    (hAmount : 0 ≤ amount.toRat) (hLe : amount.toRat ≤ x.toRat)
    (hRest : x.sub amount = .ok y) (hJ : (bond.curveIntegral x).outcome = .ok J) :
    ∃ I, (bond.curveIntegral y).outcome = .ok I ∧ I.toRat ≤ J.toRat := by
  obtain ⟨e, he⟩ := exists_exponent hPower hJ
  exact h.curveIntegral_below he (Decimal.under_sub hAmount hLe (Decimal.checked_eq_ok_iff.mp hRest)
    (he.lt_two hJ)) hJ

theorem ClosedForm.curveIntegral_add (h : ClosedForm bond) (hPower : bond.family = .power)
    (hx : 0 ≤ x.toRat) (hAmount : 0 ≤ amount.toRat) (hTotal : x.add amount = .ok total)
    (hJ : (bond.curveIntegral total).outcome = .ok J) :
    ∃ I, (bond.curveIntegral x).outcome = .ok I ∧ I.toRat ≤ J.toRat := by
  obtain ⟨e, he⟩ := exists_exponent hPower hJ
  exact h.curveIntegral_below he (Decimal.under_add hx hAmount (Decimal.checked_eq_ok_iff.mp hTotal)
    (he.lt_two hJ)) hJ

end Bond

end BondingCurve
