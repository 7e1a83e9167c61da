import BondingCurve.Proofs.Determinism
import BondingCurve.Proofs.SigmoidAccuracy
import BondingCurve.Proofs.Swap
import BondingCurve.Proofs.Violations

/-!
# Sigmoid quotes follow the order of supplies but for rounding

The exact price and the exact reserve of a sigmoid rise with the supply. Their quotes are cut from values that are
close to these. So of two supplies the smaller is quoted above the larger only where both exact values are within
the error of one amount, and by little more than a unit of the last place. Where a sigmoid is nearly flat, far from
its midpoint, that does happen.
-/

namespace BondingCurve

open Logged Decimal

section Exact

variable {c d e : ℚ}

theorem exactRoot_neg (c d : ℚ) : exactRoot c (-d) = exactRoot c d := by
  rw [exactRoot, exactRoot]
  push_cast
  rw [neg_sq]

theorem div_exactRoot_le_of_nonneg (hc : 0 < c) (hd : 0 ≤ d) (h : d ≤ e) :
    (d : ℝ) / exactRoot c d ≤ e / exactRoot c e := by
  have hdReal : (0 : ℝ) ≤ d := by exact_mod_cast hd
  have hReal : (d : ℝ) ≤ e := by exact_mod_cast h
  have hcReal : (0 : ℝ) ≤ c := by exact_mod_cast hc.le
  have hRoot := exactRoot_pos (d := d) hc
  have hRoot' := exactRoot_pos (d := e) hc
  rw [div_le_div_iff₀ hRoot hRoot']
  refine (sq_le_sq₀ (by positivity) (mul_nonneg (hdReal.trans hReal) hRoot.le)).mp ?_
  rw [mul_pow, mul_pow, exactRoot_sq hc, exactRoot_sq hc]
  linarith [mul_le_mul_of_nonneg_right (pow_le_pow_left₀ hdReal hReal 2) hcReal]

theorem div_exactRoot_mono (hc : 0 < c) (h : d ≤ e) : (d : ℝ) / exactRoot c d ≤ e / exactRoot c e := by
  rcases le_total 0 d with hRight | hLeft
  · exact div_exactRoot_le_of_nonneg hc hRight h
  rcases le_total 0 e with hRight | hLeft'
  · have hdReal : (d : ℝ) ≤ 0 := by exact_mod_cast hLeft
    have heReal : (0 : ℝ) ≤ e := by exact_mod_cast hRight
    exact (div_nonpos_of_nonpos_of_nonneg hdReal (exactRoot_pos hc).le).trans
      (div_nonneg heReal (exactRoot_pos hc).le)
  · -- before the midpoint it is the mirror image
    have hMirror := div_exactRoot_le_of_nonneg hc (neg_nonneg.mpr hLeft') (neg_le_neg h)
    rw [exactRoot_neg, exactRoot_neg] at hMirror
    push_cast at hMirror
    rw [neg_div, neg_div] at hMirror
    linarith

/-- A root falls no faster than its argument rises. -/
theorem exactRoot_add_mono (hc : 0 < c) (h : d ≤ e) : exactRoot c d + d ≤ exactRoot c e + e := by
  have hReal : (0 : ℝ) ≤ e - d := by exact_mod_cast sub_nonneg.mpr h
  have hArm := (abs_le.mp (abs_le_exactRoot (d := e) hc)).1
  have hRoot' := exactRoot_pos (d := e) hc
  have hStep : exactRoot c d ≤ exactRoot c e + (e - d) := by
    refine (sq_le_sq₀ (exactRoot_pos hc).le (by positivity)).mp ?_
    have hScaled := mul_le_mul_of_nonneg_right hArm hReal
    rw [add_sq, exactRoot_sq hc, exactRoot_sq hc]
    linarith
  linarith

theorem exactRoot_mono (hc : 0 < c) (hd : 0 ≤ d) (h : d ≤ e) : exactRoot c d ≤ exactRoot c e := by
  have hSquares := pow_le_pow_left₀ (Rat.cast_nonneg (K := ℝ).mpr hd) (Rat.cast_le.mpr h) 2
  refine (sq_le_sq₀ (exactRoot_pos hc).le (exactRoot_pos hc).le).mp ?_
  rw [exactRoot_sq hc, exactRoot_sq hc]
  linarith

end Exact

namespace Decimal

variable {p p' : Decimal}

/-- Quotes are in order unless a positive amount lies between what they are cut from. -/
theorem quantize_le_quantize_iff (hQuote' : 0 ≤ p'.quantize.toRat) :
    p.quantize.toRat ≤ p'.quantize.toRat ↔ ¬∃ u, IsAmount u ∧ 0 < u ∧ p'.toRat < u ∧ u ≤ p.toRat := by
  constructor
  · rintro hOrder ⟨u, hu, hPos, hAbove, hWithin⟩
    have hNonneg : 0 ≤ p.toRat := hPos.le.trans hWithin
    refine (quantize_le_iff hNonneg).mp hOrder ⟨u, hu, ?_, hWithin⟩
    rcases le_total 0 p'.toRat with hSign | hSign
    · exact (quantize_le hSign).trans_lt hAbove
    · exact (quantize_nonpos hSign).trans_lt hPos
  · intro hNone
    by_contra hOrder
    have hFalls := not_le.mp hOrder
    have hPos : 0 < p.quantize.toRat := hQuote'.trans_lt hFalls
    have hNonneg : 0 ≤ p.toRat := by
      by_contra hSign
      exact absurd (quantize_nonpos (not_le.mp hSign).le) (not_le.mpr hPos)
    refine hNone ⟨_, isAmount_quantize p, hPos, ?_, quantize_le hNonneg⟩
    by_contra hBelow
    have hReached := not_lt.mp hBelow
    exact (quantize_le_iff (hPos.le.trans hReached)).mp le_rfl ⟨_, isAmount_quantize p, hFalls, hReached⟩

theorem quantize_lt_quantize_add {e : ℚ} (he : 0 ≤ e) (h : p.toRat ≤ p'.toRat + e)
    (hQuote' : 0 ≤ p'.quantize.toRat) : p.quantize.toRat < p'.quantize.toRat + e + 1 / 10 ^ amountPlaces := by
  have hUnit : (0 : ℚ) < 1 / 10 ^ amountPlaces := by positivity
  have hCut : p'.toRat < p'.quantize.toRat + 1 / 10 ^ amountPlaces := by
    rcases le_total 0 p'.toRat with hSign | hSign
    · exact lt_quantize_add hSign
    · linarith
  rcases le_total 0 p.toRat with hSign | hSign
  · linarith [quantize_le hSign]
  · linarith [quantize_nonpos hSign]

end Decimal

/-- Two quotes, cut from values that are within `E` of `V` and `V'`, where `V` is not above `V'`. They are out of
order exactly where a positive amount lies between the values, and then by less than twice the error and a unit. -/
structure NearlyOrdered (V V' : ℝ) (E : ℚ) (computed computed' : Decimal) (quote quote' : ℚ) : Prop where
  exact_le : V ≤ V'
  near : |(computed.toRat : ℝ) - V| ≤ E
  near' : |(computed'.toRat : ℝ) - V'| ≤ E
  le_iff : quote ≤ quote' ↔
    ¬∃ u, IsAmount u ∧ 0 < u ∧ computed'.toRat < u ∧ u ≤ computed.toRat
  lt_add : quote < quote' + 2 * E + 1 / 10 ^ amountPlaces

theorem nearlyOrdered_of_near {V V' : ℝ} {E : ℚ} {p p' : Decimal} (hNear : |(p.toRat : ℝ) - V| ≤ E)
    (hNear' : |(p'.toRat : ℝ) - V'| ≤ E) (hLe : V ≤ V') (hQuote' : 0 ≤ p'.quantize.toRat) :
    NearlyOrdered V V' E p p' p.quantize.toRat p'.quantize.toRat := by
  have hError : 0 ≤ E := by exact_mod_cast (abs_nonneg _).trans hNear
  have hReal : (p.toRat : ℝ) ≤ p'.toRat + 2 * E := by
    linarith [(abs_le.mp hNear).2, (abs_le.mp hNear').1]
  have hClose : p.toRat ≤ p'.toRat + 2 * E := by exact_mod_cast hReal
  exact ⟨hLe, hNear, hNear', quantize_le_quantize_iff hQuote',
    quantize_lt_quantize_add (by positivity) hClose hQuote'⟩

theorem NearlyOrdered.le_of_gap {V V' : ℝ} {E quote quote' : ℚ} {p p' : Decimal}
    (h : NearlyOrdered V V' E p p' quote quote') (hGap : V + 2 * E ≤ V') : quote ≤ quote' := by
  refine h.le_iff.mpr ?_
  rintro ⟨u, _, _, hAbove, hWithin⟩
  have hReal : (p.toRat : ℝ) ≤ p'.toRat := by linarith [(abs_le.mp h.near).2, (abs_le.mp h.near').1]
  have hOrder : p.toRat ≤ p'.toRat := by exact_mod_cast hReal
  linarith

namespace Curve

variable {a b c x price : Decimal} {v w : ℚ}

theorem sigmoidPrice_mono (ha : 0 ≤ a.toRat) (hc : 0 < c.toRat) (h : v ≤ w) :
    sigmoidPrice a b c v ≤ sigmoidPrice a b c w := by
  have hRatio := div_exactRoot_mono hc (sub_le_sub_right h b.toRat)
  exact mul_le_mul_of_nonneg_left (by linarith) (by exact_mod_cast ha)

theorem sigmoidReserve_mono (ha : 0 ≤ a.toRat) (hc : 0 < c.toRat) (h : v ≤ w) :
    sigmoidReserve a b c v ≤ sigmoidReserve a b c w := by
  have hSum := exactRoot_add_mono hc (sub_le_sub_right h b.toRat)
  push_cast at hSum
  refine sub_le_sub_right (mul_le_mul_of_nonneg_left ?_ (by exact_mod_cast ha)) _
  linarith

/-- Past the midpoint a token adds the height of the sigmoid to the reserve at least. -/
theorem sigmoidReserve_add_le (ha : 0 ≤ a.toRat) (hc : 0 < c.toRat) (hPast : b.toRat ≤ v) (h : v ≤ w) :
    sigmoidReserve a b c v + a.toRat * (w - v) ≤ sigmoidReserve a b c w := by
  have hRoot := exactRoot_mono hc (sub_nonneg.mpr hPast) (sub_le_sub_right h b.toRat)
  have hScaled := mul_le_mul_of_nonneg_left hRoot (Rat.cast_nonneg (K := ℝ).mpr ha)
  rw [sigmoidReserve, sigmoidReserve]
  linarith

theorem reserveError_mono (ha : 0 ≤ a.toRat) (hc : 0 < c.toRat) (h : v ≤ w) :
    reserveError a b c v ≤ reserveError a b c w := by
  have hGrain := (by positivity : (0 : ℚ) ≤ 1 / 10 ^ 28).trans (unit_le_grain hc)
  have hSpan := mul_le_mul_of_nonneg_right (by linarith : v + b.toRat + c.toRat + 1 ≤ w + b.toRat + c.toRat + 1)
    hGrain
  rw [reserveError, reserveError]
  linarith [mul_le_mul_of_nonneg_left hSpan ha]

theorem sigmoid_priceAt_side (ha : 0 ≤ a.toRat) (hc : 0 < c.toRat) (h : (sigmoid a b c).priceAt x = .ok price) :
    (x.toRat ≤ b.toRat → price.toRat ≤ a.toRat) ∧ (b.toRat ≤ x.toRat → a.toRat ≤ price.toRat) := by
  obtain ⟨shifted, _, _, root, ratio, sum, hShifted, hRootOfSum, hRatio, hSum, hPrice⟩ :=
    sigmoid_priceAt_spec hc h
  have hr := hRootOfSum.root.pos
  constructor
  · intro hBefore
    have hRatioSign := hRatio.nonpos
      (div_nonpos_of_nonpos_of_nonneg (hShifted.nonpos (sub_nonpos.mpr hBefore)) hr.le)
    have hSumLe := hSum.ge_of_exact ⟨1, toRat_one⟩ (by linarith)
    exact hPrice.ge_of_exact a.exact_toRat (by linarith [mul_le_mul_of_nonneg_left hSumLe ha])
  · intro hPast
    have hRatioSign := hRatio.nonneg (div_nonneg (hShifted.nonneg (sub_nonneg.mpr hPast)) hr.le)
    have hSumGe := hSum.le_of_exact ⟨1, toRat_one⟩ (by linarith)
    exact hPrice.le_of_exact a.exact_toRat (by linarith [mul_le_mul_of_nonneg_left hSumGe ha])

end Curve

namespace Bond

variable {bond : Bond} {policy : Policy} {a b c x y integral integral' : Decimal} {prices prices' : Coins}

theorem sigmoid_powersAgree (hCurve : bond.curve = .ok (.sigmoid a b c)) (k : Nat) (x y : Decimal) :
    bond.PowersAgree k x y := by
  intro curve hCurve'
  cases hCurve.symm.trans hCurve'
  trivial

theorem sigmoid_prices_nearlyOrdered (hClosed : ClosedForm bond) (hCurve : bond.curve = .ok (.sigmoid a b c))
    (hLe : x ≤ y) (hPrices : (bond.pricesAtSupply x).outcome = .ok prices)
    (hPrices' : (bond.pricesAtSupply y).outcome = .ok prices') :
    ∃ price price', (Curve.sigmoid a b c).priceAt x = .ok price ∧ (Curve.sigmoid a b c).priceAt y = .ok price' ∧
      ∀ denom ∈ bond.reserves,
        NearlyOrdered (Curve.sigmoidPrice a b c x.toRat) (Curve.sigmoidPrice a b c y.toRat) (Curve.priceError a c)
          price price' (prices.amountOf denom).toRat (prices'.amountOf denom).toRat ∧
        (x ≤ b → b ≤ y → prices.amountOf denom ≤ prices'.amountOf denom) := by
  obtain ⟨ha, _, hc⟩ := hClosed.sigmoid_signs hCurve
  obtain ⟨_, price, hPrice, _, hCut⟩ := hClosed.exists_price_of_pricesAtSupply hCurve hPrices
  obtain ⟨_, price', hPrice', hQuote', hCut'⟩ := hClosed.exists_price_of_pricesAtSupply hCurve hPrices'
  refine ⟨price, price', hPrice, hPrice', fun denom hd => ?_⟩
  rw [hCut denom hd, hCut' denom hd]
  refine ⟨nearlyOrdered_of_near (Curve.sigmoid_priceAt_near ha hc hPrice)
    (Curve.sigmoid_priceAt_near ha hc hPrice')
    (Curve.sigmoidPrice_mono ha hc (le_iff_toRat_le.mp hLe)) hQuote', fun hBefore hPast => ?_⟩
  have hLow := (Curve.sigmoid_priceAt_side ha hc hPrice).1 (le_iff_toRat_le.mp hBefore)
  have hHigh := (Curve.sigmoid_priceAt_side ha hc hPrice').2 (le_iff_toRat_le.mp hPast)
  rw [le_iff_toRat_le]
  rcases le_total 0 price.toRat with hSign | hSign
  · exact quantize_mono hSign (hLow.trans hHigh)
  · exact (quantize_nonpos hSign).trans hQuote'

theorem sigmoid_integrals_nearlyOrdered (hClosed : ClosedForm bond) (hCurve : bond.curve = .ok (.sigmoid a b c))
    (hLe : x ≤ y) (hIntegral : (bond.curveIntegral x).outcome = .ok integral)
    (hIntegral' : (bond.curveIntegral y).outcome = .ok integral') :
    ∃ reserve reserve', Curve.sigmoidIntegral a b c x = .ok reserve ∧ Curve.sigmoidIntegral a b c y = .ok reserve' ∧
      NearlyOrdered (Curve.sigmoidReserve a b c x.toRat) (Curve.sigmoidReserve a b c y.toRat)
        (Curve.reserveError a b c y.toRat) reserve reserve' integral.toRat integral'.toRat := by
  obtain ⟨ha, hb, hc⟩ := hClosed.sigmoid_signs hCurve
  rw [le_iff_toRat_le] at hLe
  obtain ⟨hx, reserve, hReserve, rfl, _⟩ := exists_reserve_of_curveIntegral hCurve hIntegral
  obtain ⟨hy, reserve', hReserve', rfl, hQuote'⟩ := exists_reserve_of_curveIntegral hCurve hIntegral'
  have hWiden : (Curve.reserveError a b c x.toRat : ℝ) ≤ Curve.reserveError a b c y.toRat :=
    Rat.cast_le.mpr (Curve.reserveError_mono ha hc hLe)
  exact ⟨reserve, reserve', hReserve, hReserve', nearlyOrdered_of_near
    ((Curve.sigmoidIntegral_near ha hb hc hx hReserve).trans hWiden)
    (Curve.sigmoidIntegral_near ha hb hc hy hReserve') (Curve.sigmoidReserve_mono ha hc hLe) hQuote'⟩

/-- Quotes of a sigmoid in ascending order of supplies ascend but for the errors of what they are cut from. They
do so without exception for equal supplies, for prices on the two sides of the midpoint, for integrals from supply
zero, and for integrals past the midpoint where the supplies are far enough apart. -/
theorem sigmoid_quotes_nearly_mono (hValid : (bond.validate policy).outcome = .ok ())
    (hCurve : bond.curve = .ok (.sigmoid a b c)) (hLe : x ≤ y) :
    (∀ prices prices', (bond.pricesAtSupply x).outcome = .ok prices →
      (bond.pricesAtSupply y).outcome = .ok prices' →
      (x ≈ y → prices = prices') ∧
      ∃ price price', (Curve.sigmoid a b c).priceAt x = .ok price ∧
        (Curve.sigmoid a b c).priceAt y = .ok price' ∧
        ∀ denom ∈ bond.reserves,
          NearlyOrdered (Curve.sigmoidPrice a b c x.toRat) (Curve.sigmoidPrice a b c y.toRat)
            (Curve.priceError a c) price price' (prices.amountOf denom).toRat (prices'.amountOf denom).toRat ∧
          (x ≤ b → b ≤ y → prices.amountOf denom ≤ prices'.amountOf denom)) ∧
    ∀ integral integral', (bond.curveIntegral x).outcome = .ok integral →
      (bond.curveIntegral y).outcome = .ok integral' →
      (x ≈ y → integral = integral') ∧ (x ≈ 0 → integral ≤ integral') ∧
      (b ≤ x → 2 * Curve.reserveError a b c y.toRat ≤ a.toRat * (y.toRat - x.toRat) → integral ≤ integral') ∧
      ∃ reserve reserve', Curve.sigmoidIntegral a b c x = .ok reserve ∧
        Curve.sigmoidIntegral a b c y = .ok reserve' ∧
        NearlyOrdered (Curve.sigmoidReserve a b c x.toRat) (Curve.sigmoidReserve a b c y.toRat)
          (Curve.reserveError a b c y.toRat) reserve reserve' integral.toRat integral'.toRat := by
  have hFamily : bond.family = .sigmoid := (Curve.ofParams_eq_ok_iff.mp hCurve).2.1.symm
  have hOther : bond.family ≠ .augmented := by
    rw [hFamily]
    decide
  have hClosed := closedForm_of_validate (.inr hFamily) hValid
  obtain ⟨ha, _, hc⟩ := hClosed.sigmoid_signs hCurve
  constructor
  · intro prices prices' hPrices hPrices'
    refine ⟨fun hSame => ?_, sigmoid_prices_nearlyOrdered hClosed hCurve hLe hPrices hPrices'⟩
    have hAgree := (Alike.refl bond).agree_pricesAtSupply hOther (equiv_iff_toRat_eq.mp hSame)
      (sigmoid_powersAgree hCurve 0 x y)
    exact Except.ok.inj ((hAgree.eq_ok hPrices).symm.trans hPrices')
  · intro integral integral' hIntegral hIntegral'
    obtain ⟨reserve, reserve', hReserve, hReserve', hOrdered⟩ :=
      sigmoid_integrals_nearlyOrdered hClosed hCurve hLe hIntegral hIntegral'
    refine ⟨fun hSame => ?_, fun hZero => ?_, fun hPast hApart => ?_, reserve, reserve', hReserve, hReserve',
      hOrdered⟩
    · have hEqual := curveIntegral_eq_of_sameValue hOther (equiv_iff_toRat_eq.mp hSame)
        (sigmoid_powersAgree hCurve 1 x y) hIntegral
      exact Except.ok.inj (hEqual.symm.trans hIntegral')
    · rw [equiv_iff_toRat_eq, toRat_zero] at hZero
      rw [le_iff_toRat_le, hClosed.curveIntegral_zero hZero hIntegral]
      exact curveIntegral_nonneg hIntegral'
    · rw [le_iff_toRat_le] at hPast hLe ⊢
      have hRise := Curve.sigmoidReserve_add_le ha hc hPast hLe
      have hApartReal : (2 * Curve.reserveError a b c y.toRat : ℝ) ≤ a.toRat * (y.toRat - x.toRat) := by
        exact_mod_cast hApart
      exact hOrdered.le_of_gap (by linarith)

def distantSigmoid : Bond := sigmoidBond 1 (.units 1000000000) 1

/-- Far before its midpoint both quotes fall by a unit of the last place where the supply rises, an amount lying
between what they are cut from. -/
theorem sigmoid_quotes_nearly_mono_distantSigmoid :
    (distantSigmoid.validate .strict).outcome = .ok () ∧
    (distantSigmoid.pricesAtSupply (.scaled 292893218798934 6)).outcome =
      .ok (.single "res" (.scaled 1 amountPlaces)) ∧
    (distantSigmoid.pricesAtSupply (.scaled 292893218798935 6)).outcome = .ok (.single "res" 0) ∧
    (∃ price price', (Curve.sigmoid 1 (.units 1000000000) 1).priceAt (.scaled 292893218798934 6) = .ok price ∧
      (Curve.sigmoid 1 (.units 1000000000) 1).priceAt (.scaled 292893218798935 6) = .ok price' ∧
      ∃ u, IsAmount u ∧ 0 < u ∧ price'.toRat < u ∧ u ≤ price.toRat) ∧
    (distantSigmoid.curveIntegral (.scaled 1825784 6)).outcome = .ok (.scaled 1 amountPlaces) ∧
    (distantSigmoid.curveIntegral (.scaled 1825785 6)).outcome = .ok 0 ∧
    ∃ reserve reserve', Curve.sigmoidIntegral 1 (.units 1000000000) 1 (.scaled 1825784 6) = .ok reserve ∧
      Curve.sigmoidIntegral 1 (.units 1000000000) 1 (.scaled 1825785 6) = .ok reserve' ∧
      ∃ u, IsAmount u ∧ 0 < u ∧ reserve'.toRat < u ∧ u ≤ reserve.toRat := by
  have hValid : (distantSigmoid.validate .strict).outcome = .ok () := by decide +kernel
  have hCurve : distantSigmoid.curve = .ok (.sigmoid 1 (.units 1000000000) 1) := by decide +kernel
  have hPrices : (distantSigmoid.pricesAtSupply (.scaled 292893218798934 6)).outcome =
      .ok (.single "res" (.scaled 1 amountPlaces)) := by decide +kernel
  have hPrices' : (distantSigmoid.pricesAtSupply (.scaled 292893218798935 6)).outcome =
      .ok (.single "res" 0) := by decide +kernel
  have hIntegral : (distantSigmoid.curveIntegral (.scaled 1825784 6)).outcome =
      .ok (.scaled 1 amountPlaces) := by decide +kernel
  have hIntegral' : (distantSigmoid.curveIntegral (.scaled 1825785 6)).outcome = .ok 0 := by decide +kernel
  obtain ⟨_, price, price', hPrice, hPrice', hOrdered⟩ :=
    (sigmoid_quotes_nearly_mono hValid hCurve (by decide +kernel)).1 _ _ hPrices hPrices'
  obtain ⟨_, _, _, reserve, reserve', hReserve, hReserve', hOrdered'⟩ :=
    (sigmoid_quotes_nearly_mono hValid hCurve (by decide +kernel)).2 _ _ hIntegral hIntegral'
  have hFall := (hOrdered "res" (by decide +kernel)).1.le_iff.not.mp (by decide +kernel)
  have hFall' := hOrdered'.le_iff.not.mp (by decide +kernel)
  exact ⟨hValid, hPrices, hPrices', ⟨price, price', hPrice, hPrice', not_not.mp hFall⟩, hIntegral, hIntegral',
    reserve, reserve', hReserve, hReserve', not_not.mp hFall'⟩

end Bond

end BondingCurve
