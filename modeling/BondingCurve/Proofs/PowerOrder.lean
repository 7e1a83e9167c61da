import BondingCurve.Proofs.Determinism

/-!
# Power quotes keep the order of supplies

Of two different supplies the smaller is quoted wherever the larger is, and not above it: every product, quotient
and sum keeps the order of its operands, and so does each place at which one of them overflows. Two writings of
one supply are quoted alike where their powers agree. From exponent 1024 on they need not, and then one of the
two quotes is above the other.
-/

namespace BondingCurve

open Logged Decimal

namespace Decimal

variable {x y : Decimal} {n : Nat}

theorem follows_pow?_of_powersAgree (hWord : n < 2 ^ 64) (h : Below x y)
    (hAgree : x ≈ y → PowersAgree n x y) : Follows Below (x.pow? n) (y.pow? n) := by
  rcases eq_or_lt_of_le h.2 with hSame | hLess
  · have hValues := map_toRat_pow?_eq h.1 hSame (hAgree (equiv_iff_toRat_eq.mpr hSame))
    intro q hq
    rw [hq, Option.map_some, Option.map_eq_some_iff] at hValues
    obtain ⟨p, hp, hValue⟩ := hValues
    exact ⟨p, hp, pow?_nonneg h.1 hp, hValue.le⟩
  · exact follows_pow? hWord ⟨h, .inr (.inl hLess)⟩

end Decimal

namespace Bond

variable {bond : Bond} {policy : Policy} {x y : Decimal}

/-- In ascending order supplies have ascending quotes, and the smaller is quoted wherever the larger is. Only two
writings of one supply can be an exception, where the powers that the curve takes of them do not agree. -/
theorem power_quotes_mono (hFamily : bond.family = .power)
    (hValid : (bond.validate policy).outcome = .ok ()) (hx : 0 ≤ x) (hLe : x ≤ y) :
    ((x ≈ y → bond.PowersAgree 1 x y) → ∀ above, (bond.curveIntegral y).outcome = .ok above →
      ∃ integral, (bond.curveIntegral x).outcome = .ok integral ∧ integral ≤ above) ∧
    ((x ≈ y → bond.PowersAgree 0 x y) → ∀ above, (bond.pricesAtSupply y).outcome = .ok above →
      ∃ prices, (bond.pricesAtSupply x).outcome = .ok prices ∧
        ∀ denom ∈ bond.reserves, prices.amountOf denom ≤ above.amountOf denom) := by
  have hClosed := closedForm_of_validate (.inl hFamily) hValid
  rw [le_iff_toRat_le, toRat_zero] at hx
  have hBelow : Below x y := ⟨hx, le_iff_toRat_le.mp hLe⟩
  have hPower : ∀ curve, bond.curve = .ok curve →
      ∃ m n c, curve = .power m n c ∧ 0 ≤ m.toRat ∧ 0 ≤ c.toRat := by
    intro curve hCurve
    rw [Bond.curve, hFamily] at hCurve
    exact Curve.ofParams_power hCurve
  constructor
  · intro hAgree above hAbove
    obtain ⟨_, curve, hCurve, hIntegral⟩ := curveIntegral_eq_ok_iff.mp hAbove
    obtain ⟨exact, hExact, rfl, _⟩ := integralOf_eq_ok_iff.mp hIntegral
    obtain ⟨m, n, c, rfl, hm, hc⟩ := hPower curve hCurve
    have hFollows := Curve.follows_powerIntegral_of_pow hm hc hBelow fun hWord =>
      follows_pow?_of_powersAgree hWord hBelow fun hSame => hAgree hSame _ hCurve
    obtain ⟨smaller, hSmaller, hOrder⟩ := hFollows exact (toOption_eq_some_iff.mpr hExact)
    have hQuantized := below_quantize hOrder
    refine ⟨smaller.quantize, ?_, le_iff_toRat_le.mpr hQuantized.2⟩
    exact curveIntegral_eq_ok_iff.mpr ⟨hx, _, hCurve, integralOf_eq_ok_iff.mpr
      ⟨smaller, toOption_eq_some_iff.mp hSmaller, rfl, hQuantized.1⟩⟩
  · intro hAgree above hAbove
    obtain ⟨_, curve, price, hCurve, hPrice, _, rfl⟩ := hClosed.pricesAtSupply_eq_ok_iff.mp hAbove
    obtain ⟨m, n, c, rfl, hm, hc⟩ := hPower curve hCurve
    have hFollows := Curve.follows_power_priceAt hm hc
      (follows_pow?_of_powersAgree n.toNat_lt hBelow fun hSame => hAgree hSame _ hCurve)
    obtain ⟨smaller, hSmaller, hOrder⟩ := hFollows price (toOption_eq_some_iff.mpr hPrice)
    have hQuantized := below_quantize hOrder
    refine ⟨_, hClosed.pricesAtSupply_eq_ok_iff.mpr ⟨hx, _, smaller, hCurve,
      toOption_eq_some_iff.mp hSmaller, hQuantized.1, rfl⟩, fun denom hd => ?_⟩
    rw [Coins.amountOf_each _ hd, Coins.amountOf_each _ hd]
    exact le_iff_toRat_le.mpr hQuantized.2

/-- Below supply 1.015 the integral follows, while 1.0150 has an integral above that of 1.015. -/
theorem power_quotes_mono_steepening :
    (steepening.validate .strict).outcome = .ok () ∧
    (scaled 10149 4 : Decimal) ≤ .scaled 1015 3 ∧ (scaled 10150 4 : Decimal) ≤ .scaled 1015 3 ∧
    (steepening.curveIntegral (.scaled 1015 3)).outcome =
      .ok (.scaled 44370204688805119839439161188 amountPlaces) ∧
    (∃ integral, (steepening.curveIntegral (.scaled 10149 4)).outcome = .ok integral ∧
      integral ≤ .scaled 44370204688805119839439161188 amountPlaces) ∧
    (steepening.curveIntegral (.scaled 10150 4)).outcome =
      .ok (.scaled 44370204688805119839439161189 amountPlaces) ∧
    ¬steepening.PowersAgree 1 (.scaled 10150 4) (.scaled 1015 3) := by
  have hValid : (steepening.validate .strict).outcome = .ok () := by decide +kernel
  have hAbove : (steepening.curveIntegral (.scaled 1015 3)).outcome =
      .ok (.scaled 44370204688805119839439161188 amountPlaces) := by decide +kernel
  have hRewritten : (steepening.curveIntegral (.scaled 10150 4)).outcome =
      .ok (.scaled 44370204688805119839439161189 amountPlaces) := by decide +kernel
  have hLess : (scaled 10149 4 : Decimal) ≤ .scaled 1015 3 := by decide +kernel
  have hSame : (scaled 10150 4 : Decimal) ≤ .scaled 1015 3 := by decide +kernel
  obtain ⟨hIntegral, _⟩ := power_quotes_mono rfl hValid (by decide +kernel) hLess
  obtain ⟨hWritings, _⟩ := power_quotes_mono rfl hValid (by decide +kernel) hSame
  refine ⟨hValid, hLess, hSame, hAbove, ?_, hRewritten, fun hAgree => ?_⟩
  · exact hIntegral (fun hEqual => absurd hEqual (by decide +kernel)) _ hAbove
  · obtain ⟨integral, hFound, hOrder⟩ := hWritings (fun _ => hAgree) _ hAbove
    cases hRewritten.symm.trans hFound
    exact absurd hOrder (by decide +kernel)

end Bond

end BondingCurve
