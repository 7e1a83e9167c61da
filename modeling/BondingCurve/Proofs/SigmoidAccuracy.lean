import BondingCurve.Proofs.Sigmoid
import Mathlib.Analysis.Real.Sqrt

/-!
# How accurately a sigmoid is computed

The computed root is off the real one by a part of it that depends on `c` alone, forty grains of the curve at
most. The quotient of the spot price then is off by about as much, and the reserve by that part of what it is the
difference of.
-/

namespace BondingCurve

/-- A unit of the last place as a part of one and as a part of `c`, added up. -/
def grain (c : ℚ) : ℚ := (1 + 1 / c) / 10 ^ 28

/-- `√(d² + c)` without rounding. -/
noncomputable def exactRoot (c d : ℚ) : ℝ := √((d : ℝ) ^ 2 + c)

section Root

variable {c d s q v r : ℚ}

theorem unit_le_grain (hc : 0 < c) : 1 / 10 ^ 28 ≤ grain c := by
  have hShare : 0 ≤ 1 / c := by positivity
  exact div_le_div_of_nonneg_right (by linarith) (by positivity)

theorem unit_le_grain_real (hc : 0 < c) : (1 : ℝ) / 10 ^ 28 ≤ grain c := by
  have hUnit := Rat.cast_le (K := ℝ).mpr (unit_le_grain hc)
  push_cast at hUnit
  exact hUnit

theorem exactRoot_sq (hc : 0 < c) : exactRoot c d ^ 2 = (d : ℝ) ^ 2 + c := by
  have hcReal : (0 : ℝ) < c := by exact_mod_cast hc
  exact Real.sq_sqrt (by positivity)

theorem exactRoot_pos (hc : 0 < c) : 0 < exactRoot c d := by
  have hcReal : (0 : ℝ) < c := by exact_mod_cast hc
  exact Real.sqrt_pos.mpr (by positivity)

theorem abs_le_exactRoot (hc : 0 < c) : |(d : ℝ)| ≤ exactRoot c d := by
  have hcReal : (0 : ℝ) < c := by exact_mod_cast hc
  exact Real.abs_le_sqrt (by linarith)

theorem exactRoot_le {L : ℚ} (hc : 0 < c) (hL : |d| + c + 1 ≤ L) : exactRoot c d ≤ L := by
  have hcReal : (0 : ℝ) < c := by exact_mod_cast hc
  have hLReal : |(d : ℝ)| + c + 1 ≤ L := by exact_mod_cast hL
  have hProduct := mul_nonneg (abs_nonneg (d : ℝ)) hcReal.le
  have hSquare : (|(d : ℝ)| + c + 1) ^ 2 ≤ (L : ℝ) ^ 2 := pow_le_pow_left₀ (by positivity) hLReal 2
  refine Real.sqrt_le_iff.mpr ⟨le_trans (by positivity) hLReal, ?_⟩
  rw [← sq_abs]
  nlinarith [abs_nonneg (d : ℝ)]

theorem le_exactRoot_sq (hc : 0 < c) : (c : ℝ) ≤ exactRoot c d ^ 2 := by
  rw [exactRoot_sq hc]
  linarith [sq_nonneg (d : ℝ)]

theorem exists_unit_share {R : ℝ} (hc : 0 < c) (hR : 0 < R) (hFloor : (c : ℝ) ≤ R ^ 2) :
    ∃ e, 0 < e ∧ R * e = 1 / 10 ^ 28 ∧ R / 10 ^ 28 + e ≤ R * grain c := by
  have hcReal : (0 : ℝ) < c := by exact_mod_cast hc
  refine ⟨1 / 10 ^ 28 / R, by positivity, mul_div_cancel₀ _ hR.ne', ?_⟩
  have hShare : 1 / 10 ^ 28 / R ≤ R / c / 10 ^ 28 := by
    rw [div_div, div_div, div_le_div_iff₀ (by positivity) (by positivity)]
    linarith
  have hSplit : R * grain c = R / 10 ^ 28 + R / c / 10 ^ 28 := by
    rw [grain]
    push_cast
    ring
  linarith

/-- No real number whose square reaches the radicand is below the computed root but for roundings. -/
theorem NearRoot.le_add_real {w : ℝ} (h : NearRoot v r) (hw : 0 < w) (hv : (v : ℝ) ≤ w ^ 2) :
    (r : ℝ) ≤ w + (29 * w + 10) / 10 ^ 28 := by
  by_contra hFar
  rw [not_le] at hFar
  have hRoom : w < (r - 10 / 10 ^ 28) / (1 + 29 / 10 ^ 28) := by
    rw [lt_div_iff₀ (by norm_num)]
    linarith
  obtain ⟨y, hLow, hHigh⟩ := exists_rat_btwn hRoom
  have hy : 0 < y := by exact_mod_cast hw.trans hLow
  have hSquare : v ≤ y ^ 2 := by exact_mod_cast hv.trans (pow_le_pow_left₀ hw.le hLow.le 2)
  have hLe : (r : ℝ) ≤ y + (29 * y + 10) / 10 ^ 28 := by exact_mod_cast h.le_add y hy hSquare
  rw [lt_div_iff₀ (by norm_num)] at hHigh
  linarith

namespace RootOfSum

theorem radicand_near (h : RootOfSum s c q v r) (hc : 0 < c) (hs : |s - d| ≤ |d| / 10 ^ 28) :
    (d ^ 2 + c) * (1 - 6 / 10 ^ 28) - 1 / 10 ^ 28 ≤ v ∧ v ≤ (d ^ 2 + c) * (1 + 7 / 10 ^ 28) + 2 / 10 ^ 28 := by
  have hAbs := abs_nonneg d
  have hLow : |d| * (1 - 1 / 10 ^ 28) ≤ |s| := by
    have hDistance := abs_sub_abs_le_abs_sub d s
    rw [abs_sub_comm] at hDistance
    linarith
  have hHigh : |s| ≤ |d| * (1 + 1 / 10 ^ 28) := by linarith [abs_sub_abs_le_abs_sub s d]
  have hSquareLow := pow_le_pow_left₀ (by positivity) hLow 2
  have hSquareHigh := pow_le_pow_left₀ (abs_nonneg s) hHigh 2
  rw [mul_pow, sq_abs, sq_abs] at hSquareLow hSquareHigh
  have hsq := sq_nonneg d
  have hRadicand := h.le_radicand hc
  have hRadicand' := h.radicand_le hc
  constructor <;> linarith

theorem radicand_near_exactRoot (h : RootOfSum s c q v r) (hc : 0 < c) (hs : |s - d| ≤ |d| / 10 ^ 28) :
    exactRoot c d ^ 2 * (1 - 6 / 10 ^ 28) - 1 / 10 ^ 28 ≤ (v : ℝ) ∧
      (v : ℝ) ≤ exactRoot c d ^ 2 * (1 + 7 / 10 ^ 28) + 2 / 10 ^ 28 := by
  obtain ⟨hLow, hHigh⟩ := h.radicand_near hc hs
  rw [exactRoot_sq hc]
  have hLowReal : (((d ^ 2 + c) * (1 - 6 / 10 ^ 28) - 1 / 10 ^ 28 : ℚ) : ℝ) ≤ v := Rat.cast_le.mpr hLow
  have hHighReal : (v : ℝ) ≤ ((d ^ 2 + c) * (1 + 7 / 10 ^ 28) + 2 / 10 ^ 28 : ℚ) := Rat.cast_le.mpr hHigh
  push_cast at hLowReal hHighReal
  exact ⟨hLowReal, hHighReal⟩

theorem abs_sub_exactRoot_le (h : RootOfSum s c q v r) (hc : 0 < c) (hs : |s - d| ≤ |d| / 10 ^ 28) :
    |(r : ℝ) - exactRoot c d| ≤ 39 * (exactRoot c d * grain c) := by
  have hR := exactRoot_pos (d := d) hc
  obtain ⟨hLow, hHigh⟩ := h.radicand_near_exactRoot hc hs
  obtain ⟨e, he, hUnit, hGrain⟩ := exists_unit_share hc hR (le_exactRoot_sq hc)
  have hr : (0 : ℝ) < r := by exact_mod_cast h.root.pos
  have hReaches := Rat.cast_le (K := ℝ).mpr h.root.reaches
  push_cast at hReaches
  generalize exactRoot c d = R at *
  have hTwo : 2 / 10 ^ 28 ≤ R / 10 ^ 28 + e := by
    linarith [mul_nonneg he.le (sq_nonneg (R - 1)), congrArg (R * ·) hUnit]
  rw [abs_le]
  constructor
  · -- below the exact root by six parts and `e` the square no longer reaches the radicand
    have hReached : R * (1 - 6 / 10 ^ 28) - e ≤ (1 + 4 / 10 ^ 28) * (r + 1 / 10 ^ 28) := by
      by_contra hShort
      rw [not_le] at hShort
      have hPos : 0 < (1 + 4 / 10 ^ 28) * ((r : ℝ) + 1 / 10 ^ 28) := by positivity
      have hSquare := hReaches.trans_lt (pow_lt_pow_left₀ hShort hPos.le two_ne_zero)
      have hRoom := mul_le_mul_of_nonneg_left (by linarith : e ≤ R * (1 - 6 / 10 ^ 28)) hR.le
      have hShare := mul_le_mul_of_nonneg_left (by linarith : e ≤ R * (1 - 6 / 10 ^ 28)) he.le
      linarith
    linarith
  · have hSquare : (v : ℝ) ≤ (R * (1 + 4 / 10 ^ 28) + e) ^ 2 := by
      linarith [sq_nonneg R, sq_nonneg e]
    have hLe := h.root.le_add_real (by positivity) hSquare
    linarith

theorem abs_sub_exactRoot_le_mul {L : ℚ} (h : RootOfSum s c q v r) (hc : 0 < c) (hs : |s - d| ≤ |d| / 10 ^ 28)
    (hL : |d| + c + 1 ≤ L) : |(r : ℝ) - exactRoot c d| ≤ 39 * (L * grain c) := by
  have hGrain : (0 : ℝ) ≤ grain c := le_trans (by positivity) (unit_le_grain_real hc)
  refine (h.abs_sub_exactRoot_le hc hs).trans ?_
  exact mul_le_mul_of_nonneg_left (mul_le_mul_of_nonneg_right (exactRoot_le hc hL) hGrain) (by norm_num)

theorem abs_div_sub_le (h : RootOfSum s c q v r) (hc : 0 < c) (hs : |s - d| ≤ |d| / 10 ^ 28)
    (hShort : |s| ≤ (1 + 24 / 10 ^ 28) * r) : |(s / r : ℝ) - d / exactRoot c d| ≤ 41 * grain c := by
  have hR := exactRoot_pos (d := d) hc
  have hRoot := h.abs_sub_exactRoot_le hc hs
  have hArm := abs_le_exactRoot (d := d) hc
  have hr : (0 : ℝ) < r := by exact_mod_cast h.root.pos
  have hUnit := unit_le_grain_real hc
  have hsReal := Rat.cast_le (K := ℝ).mpr hs
  have hShortReal := Rat.cast_le (K := ℝ).mpr hShort
  push_cast at hsReal hShortReal
  have hRatio : |(s / r : ℝ)| ≤ 1 + 24 / 10 ^ 28 := by
    rwa [abs_div, abs_of_pos hr, div_le_iff₀ hr]
  generalize exactRoot c d = R at *
  have hSplit : (s / r : ℝ) - d / R = s / r * ((R - r) / R) + (s - d) / R := by
    field_simp
    ring
  have hRootShare : |(R - r) / R| ≤ 39 * grain c := by
    rw [abs_div, abs_of_pos hR, div_le_iff₀ hR, abs_sub_comm]
    linarith
  have hShiftShare : |(s - d) / R| ≤ 1 / 10 ^ 28 := by
    rw [abs_div, abs_of_pos hR, div_le_iff₀ hR]
    linarith
  have hGrain : (0 : ℝ) ≤ grain c := by linarith
  calc
    |(s / r : ℝ) - d / R| ≤ |(s / r : ℝ)| * |(R - r) / R| + |(s - d) / R| := by
      rw [hSplit, ← abs_mul]
      exact abs_add_le _ _
    _ ≤ (1 + 24 / 10 ^ 28) * (39 * grain c) + 1 / 10 ^ 28 :=
      add_le_add (mul_le_mul hRatio hRootShare (abs_nonneg _) (by norm_num)) hShiftShare
    _ ≤ 41 * grain c := by linarith

theorem abs_left (h : RootOfSum s c q v r) : RootOfSum |s| c q v r :=
  ⟨by rw [sq_abs]; exact h.square, h.sum, h.le, h.root⟩

end RootOfSum

end Root

section Rest

variable {a t x r o L ratio sum p upper lower price reserve : ℚ}

theorem abs_price_sub_le (ha : 0 ≤ a) (ht : |t| ≤ 1 + 24 / 10 ^ 28) (hRatio : RoundsSigned t ratio)
    (hSum : RoundsSigned (ratio + 1) sum) (hPrice : RoundsSigned (a * sum) price) :
    |price - a * (t + 1)| ≤ (8 * a + 1) / 10 ^ 28 := by
  obtain ⟨htLow, htHigh⟩ := abs_le.mp ht
  obtain ⟨hRatioLow, hRatioHigh⟩ := abs_le.mp hRatio.abs_sub_le_add
  have hRatioBound : |ratio + 1| ≤ 21 / 10 := by
    rw [abs_le]
    constructor <;> linarith
  obtain ⟨hSumLow, hSumHigh⟩ := abs_le.mp hSum.abs_sub_le_add
  have hShare : |sum - (t + 1)| ≤ 5 / 10 ^ 28 := by
    rw [abs_le]
    constructor <;> linarith
  have hSumBound : |sum| ≤ 22 / 10 := by
    rw [abs_le]
    constructor <;> linarith
  have hMoved : |a * sum - a * (t + 1)| ≤ a * (5 / 10 ^ 28) := by
    rw [← mul_sub, abs_mul, abs_of_nonneg ha]
    exact mul_le_mul_of_nonneg_left hShare ha
  have hPriceError := hPrice.abs_sub_le_add
  rw [abs_mul, abs_of_nonneg ha] at hPriceError
  linarith [mul_le_mul_of_nonneg_left hSumBound ha, abs_sub_le price (a * sum) (a * (t + 1))]

theorem abs_reserve_sub_le (ha : 0 ≤ a) (hx : 0 ≤ x) (hr : 0 ≤ r) (ho : 0 ≤ o) (hOne : 1 ≤ L)
    (hL : r + x + o ≤ 4 * L) (hp : RoundsSigned (r + x) p) (hUpper : RoundsSigned (a * p) upper)
    (hLower : RoundsSigned (a * o) lower) (hReserve : RoundsSigned (upper - lower) reserve) :
    |reserve - (a * (r + x) - a * o)| ≤ (13 * (a * L) + 2) / 10 ^ 28 := by
  have hSum : 0 ≤ r + x := add_nonneg hr hx
  have hpNonneg := hp.nonneg hSum
  have hUpperNonneg := hUpper.nonneg (mul_nonneg ha hpNonneg)
  have hLowerNonneg := hLower.nonneg (mul_nonneg ha ho)
  have hpScaled := mul_le_mul_of_nonneg_left (hp.le_add hSum) ha
  have hpScaled' := mul_le_mul_of_nonneg_left (hp.sub_le hSum) ha
  have hUpperHigh := hUpper.le_add (mul_nonneg ha hpNonneg)
  have hUpperLow := hUpper.sub_le (mul_nonneg ha hpNonneg)
  have hLowerHigh := hLower.le_add (mul_nonneg ha ho)
  have hLowerLow := hLower.sub_le (mul_nonneg ha ho)
  have hDifference : |upper - lower| ≤ upper + lower := by
    rw [abs_le]
    constructor <;> linarith
  obtain ⟨hReserveLow, hReserveHigh⟩ := abs_le.mp hReserve.abs_sub_le_add
  have hScale := mul_le_mul_of_nonneg_left hL ha
  have hScale' := mul_le_mul_of_nonneg_left hOne ha
  have har := mul_nonneg ha hr
  have hax := mul_nonneg ha hx
  have hao := mul_nonneg ha ho
  rw [abs_le]
  constructor <;> linarith

theorem abs_moved_le {a r R o R' x e : ℝ} (ha : 0 ≤ a) (hr : |r - R| ≤ e) (ho : |o - R'| ≤ e) :
    |a * (r + x) - a * o - (a * (R + x) - a * R')| ≤ a * (2 * e) := by
  obtain ⟨hrLow, hrHigh⟩ := abs_le.mp hr
  obtain ⟨hoLow, hoHigh⟩ := abs_le.mp ho
  have hSplit : a * (r + x) - a * o - (a * (R + x) - a * R') = a * ((r - R) - (o - R')) := by ring
  rw [hSplit, abs_mul, abs_of_nonneg ha]
  refine mul_le_mul_of_nonneg_left (abs_le.mpr ⟨?_, ?_⟩) ha <;> linarith

end Rest

namespace Curve

open Decimal

variable {a b c x price reserve : Decimal}

/-- The spot price that a sigmoid is meant to have. -/
noncomputable def sigmoidPrice (a b c : Decimal) (x : ℚ) : ℝ :=
  a.toRat * ((x - b.toRat : ℚ) / exactRoot c.toRat (x - b.toRat) + 1)

/-- The reserve it is meant to have. -/
noncomputable def sigmoidReserve (a b c : Decimal) (x : ℚ) : ℝ :=
  a.toRat * (exactRoot c.toRat (x - b.toRat) + x) - a.toRat * exactRoot c.toRat b.toRat

def priceError (a c : Decimal) : ℚ := 50 * (a.toRat * grain c.toRat) + 1 / 10 ^ 28

def reserveError (a b c : Decimal) (x : ℚ) : ℚ :=
  100 * (a.toRat * ((x + b.toRat + c.toRat + 1) * grain c.toRat)) + 2 / 10 ^ 28

theorem shifted_near {shifted : Decimal} (h : RoundsSigned (x.toRat - b.toRat) shifted.toRat) :
    |shifted.toRat - (x.toRat - b.toRat)| ≤ |x.toRat - b.toRat| / 10 ^ 28 :=
  h.abs_sub_le_of_onGrid le_rfl ((onGrid_toRat x.scale_le).sub (onGrid_toRat b.scale_le))

theorem sigmoid_priceAt_near (ha : 0 ≤ a.toRat) (hc : 0 < c.toRat)
    (h : (sigmoid a b c).priceAt x = .ok price) :
    |(price.toRat : ℝ) - sigmoidPrice a b c x.toRat| ≤ priceError a c := by
  obtain ⟨shifted, _, _, root, ratio, sum, hShifted, hRootOfSum, hRatio, hSum, hPrice⟩ :=
    sigmoid_priceAt_spec hc h
  have hShort := abs_le_mul_of_rootOfSum hRootOfSum hc
  have hQuotient : |shifted.toRat / root.toRat| ≤ 1 + 24 / 10 ^ 28 := by
    rwa [abs_div, abs_of_pos hRootOfSum.root.pos, div_le_iff₀ hRootOfSum.root.pos]
  have hRounded := Rat.cast_le (K := ℝ).mpr (abs_price_sub_le ha hQuotient hRatio hSum hPrice)
  push_cast at hRounded
  have hExact := hRootOfSum.abs_div_sub_le hc (shifted_near hShifted) hShort
  have haReal : (0 : ℝ) ≤ a.toRat := by exact_mod_cast ha
  have hUnit := mul_le_mul_of_nonneg_left (unit_le_grain_real hc) haReal
  have hMoved : |(a.toRat : ℝ) * (shifted.toRat / root.toRat + 1) - sigmoidPrice a b c x.toRat| ≤
      a.toRat * (41 * grain c.toRat) := by
    rw [sigmoidPrice, ← mul_sub, abs_mul, abs_of_nonneg haReal, add_sub_add_right_eq_sub]
    exact mul_le_mul_of_nonneg_left hExact haReal
  have hTotal := abs_sub_le (price.toRat : ℝ) (a.toRat * (shifted.toRat / root.toRat + 1))
    (sigmoidPrice a b c x.toRat)
  rw [priceError]
  push_cast
  linarith

theorem sigmoidIntegral_near (ha : 0 ≤ a.toRat) (hb : 0 ≤ b.toRat) (hc : 0 < c.toRat) (hx : 0 ≤ x.toRat)
    (h : sigmoidIntegral a b c x = .ok reserve) :
    |(reserve.toRat : ℝ) - sigmoidReserve a b c x.toRat| ≤ reserveError a b c x.toRat := by
  obtain ⟨shifted, _, _, root, _, _, origin, sum, upper, lower, hShifted, hRootOfSum, hOriginOfSum, hSum, hUpper,
    hLower, hReserve⟩ := sigmoidIntegral_spec hc h
  have hNear := shifted_near hShifted
  -- all terms are within a few times `L`
  obtain ⟨L, hL⟩ : ∃ L, L = x.toRat + b.toRat + c.toRat + 1 := ⟨_, rfl⟩
  have hDistance : |x.toRat - b.toRat| ≤ x.toRat + b.toRat := by
    rw [abs_le]
    constructor <;> linarith
  have hRootLe := hRootOfSum.abs_left.le_sum hc (abs_nonneg _)
  have hOriginLe := hOriginOfSum.le_sum hc hb
  have hShiftedLe := abs_sub_abs_le_abs_sub shifted.toRat (x.toRat - b.toRat)
  have hRounded := Rat.cast_le (K := ℝ).mpr (abs_reserve_sub_le (L := L) ha hx hRootOfSum.root.pos.le
    hOriginOfSum.root.pos.le (by linarith) (by linarith) hSum hUpper hLower hReserve)
  push_cast at hRounded
  have hRootNear := hRootOfSum.abs_sub_exactRoot_le_mul (L := L) hc hNear (by linarith)
  have hOriginNear := hOriginOfSum.abs_sub_exactRoot_le_mul (d := b.toRat) (L := L) hc
    (by rw [sub_self, abs_zero]; positivity) (by rw [abs_of_nonneg hb]; linarith)
  have haReal : (0 : ℝ) ≤ a.toRat := by exact_mod_cast ha
  have hLReal : (1 : ℝ) ≤ L := by exact_mod_cast (by linarith : 1 ≤ L)
  have hMoved := abs_moved_le (x := x.toRat) haReal hRootNear hOriginNear
  have hUnits := mul_le_mul_of_nonneg_left
    (mul_le_mul_of_nonneg_left (unit_le_grain_real hc) (by linarith : (0 : ℝ) ≤ L)) haReal
  have hScale : (0 : ℝ) ≤ a.toRat * (L * (1 / 10 ^ 28)) := by positivity
  have hTotal := abs_sub_le (reserve.toRat : ℝ)
    (a.toRat * (root.toRat + x.toRat) - a.toRat * origin.toRat) (sigmoidReserve a b c x.toRat)
  rw [reserveError, ← hL]
  rw [sigmoidReserve] at hTotal ⊢
  push_cast
  linarith

end Curve

end BondingCurve
