import BondingCurve.Proofs.Decimal.Arithmetic

/-!
# How far a rounded result is off

At twenty-eight places a rounding is off by half a unit of the last place at most. With fewer places
the mantissa is nearly full, and the error is below one part in `10 ^ 28` of the value.
-/

namespace BondingCurve

variable {v r : ℚ}

theorem Rounds.error_cases (hv : 0 ≤ v) (h : Rounds v r) :
    ∃ places ≤ 28, |r - v| ≤ 1 / 2 / 10 ^ places ∧
      (places = 28 ∨ (2 : ℚ) ^ 96 - 1 ≤ v * 10 ^ (places + 1)) := by
  obtain ⟨places, hPlaces, ⟨q, _, hNearest, rfl⟩, hMost⟩ := h
  refine ⟨places, hPlaces, ?_, hMost.imp_right fun hLong => ?_⟩
  · have hPow : (0 : ℚ) < 10 ^ places := by positivity
    have hError : (q : ℚ) / 10 ^ places - v = -(v * 10 ^ places - q) / 10 ^ places := by
      field_simp
      ring
    rw [hError, abs_div, abs_neg, abs_of_pos hPow]
    exact div_le_div_of_nonneg_right hNearest.1 hPow.le
  · obtain ⟨p, hp⟩ := exists_nearest (v := v * 10 ^ (places + 1)) (by positivity)
    have hpLong : (2 : ℚ) ^ 96 ≤ p := by exact_mod_cast hLong p hp
    have hpLow := hp.bounds.1
    linarith

/-- Half a unit of the last place, or one part in `10 ^ 28`. -/
theorem Rounds.abs_sub_le (hv : 0 ≤ v) (h : Rounds v r) :
    |r - v| ≤ 1 / 2 / 10 ^ 28 ∨ |r - v| ≤ v / 10 ^ 28 := by
  obtain ⟨places, _, hError, hPlaces⟩ := h.error_cases hv
  rcases hPlaces with rfl | hFull
  · exact .inl hError
  · right
    refine hError.trans ?_
    rw [pow_succ 10 places, ← mul_assoc] at hFull
    rw [div_le_div_iff₀ (by positivity) (by positivity)]
    linarith

theorem Rounds.abs_sub_le_half {places : Nat} (hv : 0 ≤ v) (h : Rounds v r) (hPlaces : places ≤ 28)
    (hFits : v * 10 ^ places < 2 ^ 96 - 1) : |r - v| ≤ 1 / 2 / 10 ^ places := by
  obtain ⟨most, _, hError, hMost⟩ := h.error_cases hv
  have hLe : places ≤ most := by
    rcases hMost with rfl | hFull
    · exact hPlaces
    · by_contra hLess
      have hPow : (10 : ℚ) ^ (most + 1) ≤ 10 ^ places := pow_le_pow_right₀ (by norm_num) (by omega)
      linarith [mul_le_mul_of_nonneg_left hPow hv]
  exact hError.trans (div_le_div_of_nonneg_left (by norm_num) (by positivity)
    (pow_le_pow_right₀ (by norm_num) hLe))

namespace RoundsSigned

theorem lt_and_abs_sub_le {places N : Nat} (h : RoundsSigned v r) (hv : 0 ≤ v) (hr : r < N)
    (hPlaces : places ≤ 28) (hFits : N * 10 ^ places + 1 < 2 ^ 96) :
    v < N ∧ |r - v| ≤ 1 / 2 / 10 ^ places := by
  have hScaled : N ≤ N * 10 ^ places := Nat.le_mul_of_pos_right N (Nat.pow_pos (by decide))
  have hWhole : Exact (N : ℚ) := exact_natCast (by omega)
  have hLess : v < N := by
    by_contra hGe
    exact absurd (h.le_of_exact hWhole (not_lt.mp hGe)) (not_le.mpr hr)
  have hFitsRat : (N : ℚ) * 10 ^ places + 1 < 2 ^ 96 := by exact_mod_cast hFits
  refine ⟨hLess, (h.rounds hv).abs_sub_le_half hv hPlaces ?_⟩
  linarith [mul_le_mul_of_nonneg_right hLess.le (by positivity : (0 : ℚ) ≤ 10 ^ places)]

theorem abs_sub_eq (h : RoundsSigned v r) : |r - v| = |(|r| - |v|)| := by
  rcases le_total 0 v with hv | hv
  · rw [abs_of_nonneg hv, abs_of_nonneg (h.nonneg hv)]
  · rw [abs_of_nonpos hv, abs_of_nonpos (h.nonpos hv), ← abs_neg]
    congr 1
    ring

theorem abs_sub_le (h : RoundsSigned v r) :
    |r - v| ≤ 1 / 2 / 10 ^ 28 ∨ |r - v| ≤ |v| / 10 ^ 28 := by
  rw [h.abs_sub_eq]
  exact h.magnitude.abs_sub_le (abs_nonneg v)

theorem abs_sub_le_add (h : RoundsSigned v r) : |r - v| ≤ (1 / 2 + |v|) / 10 ^ 28 := by
  have hAbs := abs_nonneg v
  rcases h.abs_sub_le with hUnit | hPart
  · exact hUnit.trans (div_le_div_of_nonneg_right (by linarith) (by positivity))
  · exact hPart.trans (div_le_div_of_nonneg_right (by linarith) (by positivity))

theorem abs_sub_le_max (h : RoundsSigned v r) (hv : 0 ≤ v) : |r - v| ≤ max 1 v / 10 ^ 28 := by
  rcases h.abs_sub_le with hUnit | hPart
  · exact hUnit.trans (div_le_div_of_nonneg_right (by linarith [le_max_left 1 v]) (by positivity))
  · rw [abs_of_nonneg hv] at hPart
    exact hPart.trans (div_le_div_of_nonneg_right (le_max_right 1 v) (by positivity))

/-- On a grid of decimals the error is a part of the value, however small it is: what is small is exact. -/
theorem abs_sub_le_of_onGrid {places : Nat} (h : RoundsSigned v r) (hPlaces : places ≤ 28)
    (hv : OnGrid places v) : |r - v| ≤ |v| / 10 ^ 28 := by
  rcases lt_or_ge (|v| * 10 ^ places) (2 ^ 96) with hShort | hLong
  · rw [h.eq_of_exact (exact_of_onGrid hPlaces hv hShort), sub_self, abs_zero]
    positivity
  · rcases h.abs_sub_le with hUnit | hPart
    · have hPow : (10 : ℚ) ^ places ≤ 10 ^ 28 := pow_le_pow_right₀ (by norm_num) hPlaces
      have hScaled : |v| * 10 ^ places ≤ |v| * 10 ^ 28 := mul_le_mul_of_nonneg_left hPow (abs_nonneg v)
      refine hUnit.trans (div_le_div_of_nonneg_right ?_ (by positivity))
      linarith
    · exact hPart

theorem le_add (h : RoundsSigned v r) (hv : 0 ≤ v) : r ≤ v + (1 / 2 + v) / 10 ^ 28 := by
  have hError := (abs_le.mp h.abs_sub_le_add).2
  rw [abs_of_nonneg hv] at hError
  linarith

theorem sub_le (h : RoundsSigned v r) (hv : 0 ≤ v) : v - (1 / 2 + v) / 10 ^ 28 ≤ r := by
  have hError := (abs_le.mp h.abs_sub_le_add).1
  rw [abs_of_nonneg hv] at hError
  linarith

theorem neg_le {d : ℚ} (h : RoundsSigned v r) (hd : 0 ≤ d) (hv : -d ≤ v) :
    -(d + (1 / 2 + d) / 10 ^ 28) ≤ r := by
  rcases le_total 0 v with hNonneg | hNonpos
  · have hr := h.nonneg hNonneg
    have hSlack : 0 ≤ d + (1 / 2 + d) / 10 ^ 28 := by positivity
    linarith
  · have hHigh := h.neg.le_add (neg_nonneg.mpr hNonpos)
    linarith

/-- The square of an exact value is at most that of its rounding, but for parts and units. -/
theorem sq_le (h : RoundsSigned v r) : v ^ 2 ≤ r ^ 2 * (1 + 6 / 10 ^ 28) + 3 / 10 / 10 ^ 28 := by
  have hError := abs_sub_abs_le_abs_sub v r
  rw [abs_sub_comm] at hError
  have hBound : |v| ≤ (1 + 2 / 10 ^ 28) * (|r| + 1 / 2 / 10 ^ 28) := by
    linarith [h.abs_sub_le_add, abs_nonneg r]
  have hSquares := pow_le_pow_left₀ (abs_nonneg v) hBound 2
  have hExpand : (|r| + 1 / 2 / 10 ^ 28) ^ 2 = r ^ 2 + |r| / 10 ^ 28 + 1 / 4 / 10 ^ 56 := by
    rw [← sq_abs r]
    ring
  have hMixed : |r| ≤ r ^ 2 + 1 / 4 := by
    rw [← sq_abs]
    linarith [sq_nonneg (|r| - 1 / 2)]
  rw [mul_pow, sq_abs, hExpand] at hSquares
  linarith [sq_nonneg r]

theorem abs_mul_sub_le {ratio share value product : ℚ} (hShare : RoundsSigned ratio share)
    (hProduct : RoundsSigned (share * value) product) (hRatio : 0 ≤ ratio) (hValue : 0 ≤ value) :
    |product - ratio * value| ≤ (1 + value + 3 * (ratio * value)) / 10 ^ 28 := by
  have hExact : 0 ≤ ratio * value := mul_nonneg hRatio hValue
  have hShareNonneg := hShare.nonneg hRatio
  have hMoved : |share * value - ratio * value| ≤ (1 / 2 * value + ratio * value) / 10 ^ 28 := by
    rw [← sub_mul, abs_mul, abs_of_nonneg hValue]
    have hError := mul_le_mul_of_nonneg_right hShare.abs_sub_le_add hValue
    rw [abs_of_nonneg hRatio] at hError
    linarith
  have hRounded := hProduct.abs_sub_le_add
  rw [abs_of_nonneg (mul_nonneg hShareNonneg hValue)] at hRounded
  obtain ⟨hMovedLow, hMovedHigh⟩ := abs_le.mp hMoved
  obtain ⟨hRoundedLow, hRoundedHigh⟩ := abs_le.mp hRounded
  rw [abs_le]
  constructor
  · linarith
  · linarith

end RoundsSigned

theorem Decimal.abs_sub_le_of_add {x y r : Decimal} (hx : 0 ≤ x.toRat) (hy : 0 ≤ y.toRat)
    (h : x.add? y = some r) : |r.toRat - (x.toRat + y.toRat)| ≤ (x.toRat + y.toRat) / 10 ^ 28 := by
  have hGrid := (onGrid_toRat x.scale_le).add (onGrid_toRat y.scale_le)
  have hError := ((computes_add? x y).rounds h).abs_sub_le_of_onGrid le_rfl hGrid
  rwa [abs_of_nonneg (add_nonneg hx hy)] at hError

end BondingCurve
