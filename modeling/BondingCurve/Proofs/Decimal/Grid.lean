import BondingCurve.Proofs.Decimal.Value

/-!
# Cutting to a grid

Cutting a decimal to a number of places leaves the multiple of that unit next to it toward zero,
rounding it up the least multiple not below it. Both are integer parts of the value in units of
the grid, so they leave a value of the grid as it is.
-/

namespace BondingCurve

/-- A multiple of `10 ^ -places`. -/
def OnGrid (places : Nat) (v : ℚ) : Prop := ∃ k : ℤ, v * 10 ^ places = k

theorem OnGrid.intCast (places : Nat) (n : ℤ) : OnGrid places n :=
  ⟨n * 10 ^ places, by push_cast; ring⟩

theorem onGrid_unit (places : Nat) : OnGrid places (1 / 10 ^ places) :=
  ⟨1, by rw [one_div_mul_cancel (by positivity), Int.cast_one]⟩

theorem OnGrid.add {places : Nat} {v w : ℚ} (hv : OnGrid places v) (hw : OnGrid places w) :
    OnGrid places (v + w) := by
  obtain ⟨k, hk⟩ := hv
  obtain ⟨l, hl⟩ := hw
  exact ⟨k + l, by rw [add_mul, hk, hl]; push_cast; ring⟩

theorem OnGrid.neg {places : Nat} {v : ℚ} (hv : OnGrid places v) : OnGrid places (-v) := by
  obtain ⟨k, hk⟩ := hv
  exact ⟨-k, by rw [neg_mul, hk]; push_cast; ring⟩

theorem OnGrid.sub {places : Nat} {v w : ℚ} (hv : OnGrid places v) (hw : OnGrid places w) :
    OnGrid places (v - w) := by
  rw [sub_eq_add_neg]
  exact hv.add hw.neg

theorem OnGrid.mul {places more : Nat} {v w : ℚ} (hv : OnGrid places v) (hw : OnGrid more w) :
    OnGrid (places + more) (v * w) := by
  obtain ⟨k, hk⟩ := hv
  obtain ⟨l, hl⟩ := hw
  exact ⟨k * l, by rw [Int.cast_mul, ← hk, ← hl]; ring⟩

/-- Two values of a grid are a unit apart or the same. -/
theorem OnGrid.add_unit_le {places : Nat} {v w : ℚ} (hv : OnGrid places v) (hw : OnGrid places w)
    (h : v < w) : v + 1 / 10 ^ places ≤ w := by
  have hPow : (0 : ℚ) < 10 ^ places := by positivity
  obtain ⟨k, hk⟩ := hv
  obtain ⟨l, hl⟩ := hw
  have hLess : (k : ℚ) < l := by
    rw [← hk, ← hl]
    exact mul_lt_mul_of_pos_right h hPow
  have hNext : (k : ℚ) + 1 ≤ l := by exact_mod_cast hLess
  rw [← hk, ← hl] at hNext
  rw [← le_sub_iff_add_le', div_le_iff₀ hPow]
  linarith

theorem onGrid_floor_div (places : Nat) (v : ℚ) : OnGrid places ((⌊v⌋ : ℚ) / 10 ^ places) :=
  ⟨⌊v⌋, div_mul_cancel₀ _ (by positivity)⟩

theorem onGrid_ceil_div (places : Nat) (v : ℚ) : OnGrid places ((⌈v⌉ : ℚ) / 10 ^ places) :=
  ⟨⌈v⌉, div_mul_cancel₀ _ (by positivity)⟩

theorem OnGrid.floor_div {places : Nat} {v : ℚ} (h : OnGrid places v) :
    (⌊v * 10 ^ places⌋ : ℚ) / 10 ^ places = v := by
  obtain ⟨k, hk⟩ := h
  rw [hk, Int.floor_intCast, ← hk, mul_div_cancel_right₀ _ (by positivity)]

theorem OnGrid.ceil_div {places : Nat} {v : ℚ} (h : OnGrid places v) :
    (⌈v * 10 ^ places⌉ : ℚ) / 10 ^ places = v := by
  obtain ⟨k, hk⟩ := h
  rw [hk, Int.ceil_intCast, ← hk, mul_div_cancel_right₀ _ (by positivity)]

namespace Magnitude

theorem toRat_mul_pow (x : Magnitude) {places : Nat} (h : places ≤ x.scale) :
    x.toRat * 10 ^ places = (x.mantissa : ℚ) / (10 ^ (x.scale - places) : Nat) := by
  have hPow : (10 : ℚ) ^ x.scale = 10 ^ (x.scale - places) * 10 ^ places := by
    rw [← pow_add, Nat.sub_add_cancel h]
  unfold toRat
  rw [hPow]
  push_cast
  field_simp

theorem onGrid_toRat (x : Magnitude) {places : Nat} (h : x.scale ≤ places) :
    OnGrid places x.toRat := by
  refine ⟨x.mantissa * 10 ^ (places - x.scale), ?_⟩
  have hPow : (10 : ℚ) ^ places = 10 ^ x.scale * 10 ^ (places - x.scale) := by
    rw [← pow_add, Nat.add_sub_cancel' h]
  unfold toRat
  rw [hPow]
  push_cast
  field_simp

theorem toRat_cut (x : Magnitude) {places : Nat} (h : places < x.scale) (hPlaces : places ≤ 28) :
    (x.cut (x.scale - places) places hPlaces).toRat = (⌊x.toRat * 10 ^ places⌋ : ℚ) / 10 ^ places := by
  have hFloor : ⌊x.toRat * 10 ^ places⌋ = (x.mantissa / 10 ^ (x.scale - places) : Nat) := by
    rw [x.toRat_mul_pow (Nat.le_of_lt h), Rat.floor_natCast_div_natCast]
    rfl
  rw [hFloor]
  rfl

theorem toRat_cutAbove (x : Magnitude) {places : Nat} (h : places < x.scale) (hPlaces : places ≤ 28)
    (hRest : x.mantissa % 10 ^ (x.scale - places) ≠ 0) :
    (x.cutAbove (x.scale - places) places (by omega) hPlaces).toRat =
      (⌈x.toRat * 10 ^ places⌉ : ℚ) / 10 ^ places := by
  have hUnit : 0 < 10 ^ (x.scale - places) := by positivity
  have hDivision := Nat.div_add_mod x.mantissa (10 ^ (x.scale - places))
  have hRemainder := Nat.mod_lt x.mantissa hUnit
  have hCeil : ⌈x.toRat * 10 ^ places⌉ = (x.mantissa / 10 ^ (x.scale - places) : Nat) + 1 := by
    rw [x.toRat_mul_pow (Nat.le_of_lt h), Int.ceil_eq_iff]
    generalize 10 ^ (x.scale - places) = d at *
    generalize x.mantissa / d = q at *
    generalize x.mantissa % d = r at *
    have hd : (0 : ℚ) < d := by exact_mod_cast hUnit
    have hSplit : (x.mantissa : ℚ) = d * q + r := by exact_mod_cast hDivision.symm
    have hLow : (0 : ℚ) < r := by exact_mod_cast Nat.pos_of_ne_zero hRest
    have hHigh : (r : ℚ) < d := by exact_mod_cast hRemainder
    rw [lt_div_iff₀ hd, div_le_iff₀ hd]
    push_cast
    constructor <;> linarith
  rw [hCeil]
  change ((x.mantissa / 10 ^ (x.scale - places) + 1 : Nat) : ℚ) / 10 ^ places = _
  rw [Nat.cast_succ, Int.cast_add, Int.cast_natCast, Int.cast_one]

end Magnitude

namespace Decimal

variable {places : Nat} {hPlaces : places ≤ 28}

theorem onGrid_toRat {x : Decimal} (h : x.scale ≤ places) : OnGrid places x.toRat := by
  have hMagnitude := x.toMagnitude.onGrid_toRat h
  rw [toRat_eq]
  split
  · exact hMagnitude.neg
  · exact hMagnitude

theorem toRat_truncateTo_of_nonneg {x : Decimal} (h : 0 ≤ x.toRat) :
    (x.truncateTo places hPlaces).toRat = (⌊x.toRat * 10 ^ places⌋ : ℚ) / 10 ^ places := by
  have hValue := toRat_of_nonneg h
  unfold truncateTo
  split
  · rename_i hScale
    rw [(onGrid_toRat hScale).floor_div]
  · rename_i hScale
    have hCut := x.toMagnitude.toRat_cut (Nat.lt_of_not_le hScale) hPlaces
    rw [← hValue] at hCut
    rw [toRat_withSign, hCut]
    split
    · rename_i hNegative
      -- a nonnegative value under a minus sign is a zero
      have hZero : x.toRat = 0 := by
        rw [toRat_eq, if_pos hNegative] at h
        have := x.toMagnitude.toRat_nonneg
        linarith
      simp [hZero]
    · rfl

theorem toRat_truncateTo_of_nonpos {x : Decimal} (h : x.toRat ≤ 0) :
    (x.truncateTo places hPlaces).toRat = (⌈x.toRat * 10 ^ places⌉ : ℚ) / 10 ^ places := by
  unfold truncateTo
  split
  · rename_i hScale
    rw [(onGrid_toRat hScale).ceil_div]
  · rename_i hScale
    have hCut := x.toMagnitude.toRat_cut (Nat.lt_of_not_le hScale) hPlaces
    have hMagnitude : x.toMagnitude.toRat = -x.toRat := by rw [← abs_toRat, abs_of_nonpos h]
    rw [hMagnitude, neg_mul, Int.floor_neg] at hCut
    rw [toRat_withSign, hCut]
    split
    · push_cast
      ring
    · rename_i hNegative
      have hZero : x.toRat = 0 := by
        rw [toRat_eq, if_neg hNegative] at h ⊢
        exact le_antisymm h x.toMagnitude.toRat_nonneg
      simp [hZero]

theorem toRat_ceilTo (x : Decimal) :
    (x.ceilTo places hPlaces).toRat = (⌈x.toRat * 10 ^ places⌉ : ℚ) / 10 ^ places := by
  unfold ceilTo
  split
  · rename_i hScale
    rw [(onGrid_toRat hScale).ceil_div]
  · rename_i hScale
    have hLess := Nat.lt_of_not_le hScale
    have hTruncate : (x.truncateTo places hPlaces).toRat =
        ((x.toMagnitude.cut (x.scale - places) places).withSign x.negative).toRat := by
      unfold truncateTo
      rw [if_neg hScale]
    split
    · rename_i h
      obtain ⟨hSign, hRest⟩ := h
      rw [toRat_withSign, if_neg (by decide), Magnitude.toRat_cutAbove _ hLess hPlaces hRest,
        ← toRat_of_nonneg (toRat_nonneg_of_negative_eq_false hSign)]
    · rename_i h
      rw [← hTruncate]
      by_cases hSign : x.negative = false
      · -- nothing is cut off, so the value is on the grid and both ways agree
        have hRest : x.mantissa % 10 ^ (x.scale - places) = 0 := by
          by_contra hRest
          exact h ⟨hSign, hRest⟩
        have hNonneg := toRat_nonneg_of_negative_eq_false hSign
        have hGrid : OnGrid places x.toRat := by
          refine ⟨(x.mantissa / 10 ^ (x.scale - places) : Nat), ?_⟩
          rw [toRat_of_nonneg hNonneg, x.toMagnitude.toRat_mul_pow (Nat.le_of_lt hLess)]
          have hExact := Nat.div_mul_cancel (Nat.dvd_of_mod_eq_zero hRest)
          rw [div_eq_iff (by positivity)]
          exact_mod_cast hExact.symm
        rw [toRat_truncateTo_of_nonneg hNonneg, hGrid.floor_div, hGrid.ceil_div]
      · have hNonpos : x.toRat ≤ 0 := by
          rw [toRat_eq, if_pos (by simpa using hSign)]
          exact neg_nonpos.mpr x.toMagnitude.toRat_nonneg
        exact toRat_truncateTo_of_nonpos hNonpos

theorem truncateTo_eq_self_of_onGrid {x : Decimal} (h : OnGrid places x.toRat) :
    (x.truncateTo places hPlaces).toRat = x.toRat := by
  rcases le_total 0 x.toRat with hSign | hSign
  · rw [toRat_truncateTo_of_nonneg hSign, h.floor_div]
  · rw [toRat_truncateTo_of_nonpos hSign, h.ceil_div]

/-- Fractional digits of an amount that has left the engine. -/
def IsAmount (v : ℚ) : Prop := OnGrid amountPlaces v

theorem toRat_quantize_of_nonneg {x : Decimal} (h : 0 ≤ x.toRat) :
    x.quantize.toRat = (⌊x.toRat * 10 ^ amountPlaces⌋ : ℚ) / 10 ^ amountPlaces := by
  rw [quantize, toRat_normalize, toRat_truncateTo_of_nonneg h]

theorem toRat_quantize_of_nonpos {x : Decimal} (h : x.toRat ≤ 0) :
    x.quantize.toRat = (⌈x.toRat * 10 ^ amountPlaces⌉ : ℚ) / 10 ^ amountPlaces := by
  rw [quantize, toRat_normalize, toRat_truncateTo_of_nonpos h]

theorem toRat_quantize_of_isAmount {x : Decimal} (h : IsAmount x.toRat) :
    x.quantize.toRat = x.toRat := by
  rw [quantize, toRat_normalize, truncateTo_eq_self_of_onGrid h]

theorem isAmount_quantize (x : Decimal) : IsAmount x.quantize.toRat := by
  rcases le_total 0 x.toRat with hSign | hSign
  · rw [toRat_quantize_of_nonneg hSign]
    exact onGrid_floor_div _ _
  · rw [toRat_quantize_of_nonpos hSign]
    exact onGrid_ceil_div _ _

theorem toRat_quantizeUp (x : Decimal) :
    x.quantizeUp.toRat = (⌈x.toRat * 10 ^ amountPlaces⌉ : ℚ) / 10 ^ amountPlaces := by
  rw [quantizeUp, toRat_normalize, toRat_ceilTo]

theorem isAmount_quantizeUp (x : Decimal) : IsAmount x.quantizeUp.toRat := by
  rw [toRat_quantizeUp]
  exact onGrid_ceil_div _ _

theorem le_quantizeUp (x : Decimal) : x.toRat ≤ x.quantizeUp.toRat := by
  rw [toRat_quantizeUp, le_div_iff₀ (by positivity)]
  exact Int.le_ceil _

theorem quantizeUp_lt_add (x : Decimal) : x.quantizeUp.toRat < x.toRat + 1 / 10 ^ amountPlaces := by
  rw [toRat_quantizeUp, ← sub_lt_iff_lt_add, ← sub_div, div_lt_iff₀ (by positivity)]
  linarith [Int.ceil_lt_add_one (x.toRat * 10 ^ amountPlaces)]

theorem quantizeUp_le {x : Decimal} {v : ℚ} (hv : IsAmount v) (h : x.toRat ≤ v) : x.quantizeUp.toRat ≤ v := by
  have hUnits := mul_le_mul_of_nonneg_right h (by positivity : (0 : ℚ) ≤ 10 ^ amountPlaces)
  obtain ⟨k, hk⟩ := hv
  rw [hk] at hUnits
  rw [toRat_quantizeUp, div_le_iff₀ (by positivity), hk]
  exact_mod_cast Int.ceil_le.mpr hUnits

theorem quantize_nonneg {x : Decimal} (h : 0 ≤ x.toRat) : 0 ≤ x.quantize.toRat := by
  rw [toRat_quantize_of_nonneg h]
  have hFloor : (0 : ℤ) ≤ ⌊x.toRat * 10 ^ amountPlaces⌋ := Int.floor_nonneg.mpr (by positivity)
  have hCast : (0 : ℚ) ≤ (⌊x.toRat * 10 ^ amountPlaces⌋ : ℤ) := by exact_mod_cast hFloor
  positivity

theorem quantize_nonpos {x : Decimal} (h : x.toRat ≤ 0) : x.quantize.toRat ≤ 0 := by
  rw [toRat_quantize_of_nonpos h]
  have hCeil : ⌈x.toRat * 10 ^ amountPlaces⌉ ≤ 0 :=
    Int.ceil_le.mpr (by exact_mod_cast mul_nonpos_of_nonpos_of_nonneg h (by positivity))
  exact div_nonpos_of_nonpos_of_nonneg (by exact_mod_cast hCeil) (by positivity)

/-- Negative after the cut is what was a whole unit of the last place below zero. -/
theorem quantize_neg_iff {x : Decimal} : x.quantize.toRat < 0 ↔ x.toRat ≤ -1 / 10 ^ amountPlaces := by
  have hPow : (0 : ℚ) < 10 ^ amountPlaces := by positivity
  rw [le_div_iff₀ hPow]
  rcases le_total 0 x.toRat with hSign | hSign
  · have hUnits : 0 ≤ x.toRat * 10 ^ amountPlaces := mul_nonneg hSign hPow.le
    exact ⟨fun h => absurd (quantize_nonneg hSign) (not_le.mpr h), fun h => by linarith⟩
  · rw [toRat_quantize_of_nonpos hSign, div_lt_iff₀ hPow, zero_mul]
    have hCeil : ⌈x.toRat * 10 ^ amountPlaces⌉ < 0 ↔ ⌈x.toRat * 10 ^ amountPlaces⌉ ≤ -1 := by omega
    rw [Int.cast_lt_zero, hCeil, Int.ceil_le, Int.cast_neg, Int.cast_one]

theorem quantize_le {x : Decimal} (h : 0 ≤ x.toRat) : x.quantize.toRat ≤ x.toRat := by
  rw [toRat_quantize_of_nonneg h, div_le_iff₀ (by positivity)]
  exact Int.floor_le _

/-- The cut takes away less than a unit of the last place. -/
theorem lt_quantize_add {x : Decimal} (h : 0 ≤ x.toRat) :
    x.toRat < x.quantize.toRat + 1 / 10 ^ amountPlaces := by
  rw [toRat_quantize_of_nonneg h, ← add_div, lt_div_iff₀ (by positivity)]
  exact Int.lt_floor_add_one _

theorem quantize_mono {x y : Decimal} (hx : 0 ≤ x.toRat) (h : x.toRat ≤ y.toRat) :
    x.quantize.toRat ≤ y.quantize.toRat := by
  rw [toRat_quantize_of_nonneg hx, toRat_quantize_of_nonneg (hx.trans h)]
  have hFloor : ⌊x.toRat * 10 ^ amountPlaces⌋ ≤ ⌊y.toRat * 10 ^ amountPlaces⌋ :=
    Int.floor_le_floor (mul_le_mul_of_nonneg_right h (by positivity))
  exact div_le_div_of_nonneg_right (by exact_mod_cast hFloor) (by positivity)

theorem toRat_ceilUnits (x : Decimal) : x.ceilUnits.toRat = ⌈x.toRat⌉ := by
  have h : (x.ceilTo 0).toRat = _ := toRat_ceilTo x
  simpa [ceilUnits] using h

theorem toRat_truncateUnits_of_nonneg {x : Decimal} (h : 0 ≤ x.toRat) :
    x.truncateUnits.toRat = ⌊x.toRat⌋ := by
  have hTruncate : (x.truncateTo 0).toRat = _ := toRat_truncateTo_of_nonneg h
  simpa [truncateUnits] using hTruncate

theorem isInteger_iff_floor {x : Decimal} (h : 0 ≤ x.toRat) :
    x.IsInteger ↔ (⌊x.toRat⌋ : ℚ) = x.toRat := by
  unfold IsInteger
  rw [equiv_iff_toRat_eq, toRat_truncateUnits_of_nonneg h]

theorem scale_truncateUnits (x : Decimal) : x.truncateUnits.scale = 0 := by
  unfold truncateUnits truncateTo
  split
  · omega
  · rfl

theorem abs_toRat_truncateUnits (x : Decimal) : |x.truncateUnits.toRat| = x.truncateUnits.mantissa := by
  rw [abs_toRat, Magnitude.toRat, scale_truncateUnits, pow_zero, div_one]

theorem isInteger_iff {x : Decimal} : x.IsInteger ↔ ∃ k : ℤ, x.toRat = k := by
  rw [IsInteger, equiv_iff_toRat_eq]
  constructor
  · intro h
    obtain ⟨k, hk⟩ := onGrid_toRat (Nat.le_of_eq x.scale_truncateUnits)
    exact ⟨k, by rw [← h, ← hk, pow_zero, mul_one]⟩
  · rintro ⟨k, hk⟩
    exact truncateTo_eq_self_of_onGrid ⟨k, by rw [hk, pow_zero, mul_one]⟩

end Decimal

end BondingCurve
