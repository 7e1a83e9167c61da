import BondingCurve.Proofs.Backing
import BondingCurve.Proofs.Decimal.Root

/-!
# How far rounding takes a sigmoid below zero

Without rounding neither the spot price nor the reserve of a sigmoid is negative. As they are computed,
each is a difference of two terms that may be almost equal, and the roundings of the terms remain: up to
`28 a` units of the last place for the price, and `70 a (b + c + 1) (1 + 1 / c)` for the reserve.
-/

namespace BondingCurve

section Scaling

variable {y k n c : ℚ}

theorem le_mul_of_sq_le (hc : 0 < c) (hy : 0 < y) (h : c ≤ y ^ 2) : c ≤ (1 + c) * y := by
  by_contra hLess
  rw [not_le] at hLess
  nlinarith

theorem le_div_one_add (hk : 0 ≤ k) (hy : 0 ≤ y) : y ≤ y / (1 + k) + y * k := by
  have hShare : y / (1 + k) * (1 + k) = y := div_mul_cancel₀ y (by positivity)
  have hLess : y / (1 + k) ≤ y := div_le_self hy (by linarith)
  linarith [mul_le_mul_of_nonneg_right hLess hk]

theorem div_one_add_sq_le (hk : 0 ≤ k) (hn : 0 ≤ n) (h : y ^ 2 ≤ n * (1 + k)) :
    (y / (1 + k)) ^ 2 ≤ n := by
  rw [div_pow, div_le_iff₀ (by positivity)]
  calc
    y ^ 2 ≤ n * (1 + k) := h
    _ ≤ n * (1 + k) ^ 2 := mul_le_mul_of_nonneg_left (le_self_pow₀ (by linarith) two_ne_zero) hn

end Scaling

/-- `r` is the root of `s ^ 2 + c` with the square, the sum and the root rounded, to `q`, `v` and `r`. -/
structure RootOfSum (s c q v r : ℚ) : Prop where
  square : RoundsSigned (s ^ 2) q
  sum : RoundsSigned (q + c) v
  le : c ≤ v
  root : NearRoot v r

namespace RootOfSum

variable {s c q v r : ℚ}

theorem square_nonneg (h : RootOfSum s c q v r) : 0 ≤ q := h.square.nonneg (sq_nonneg s)

theorem le_radicand (h : RootOfSum s c q v r) (hc : 0 < c) :
    (s ^ 2 + c) * (1 - 2 / 10 ^ 28) - 1 / 10 ^ 28 ≤ v := by
  have hSquare := h.square.sub_le (sq_nonneg s)
  have hSum := h.sum.sub_le (add_nonneg h.square_nonneg hc.le)
  have hsq := sq_nonneg s
  linarith

theorem radicand_le (h : RootOfSum s c q v r) (hc : 0 < c) :
    v ≤ (s ^ 2 + c) * (1 + 3 / 10 ^ 28) + 2 / 10 ^ 28 := by
  have hSquare := h.square.le_add (sq_nonneg s)
  have hSum := h.sum.le_add (add_nonneg h.square_nonneg hc.le)
  have hsq := sq_nonneg s
  linarith

theorem abs_mul_le (h : RootOfSum s c q v r) (hc : 0 < c) (hs : 1 / 5 ≤ |s|) :
    |s| * (1 - 23 / 10 ^ 28) ≤ r := by
  by_contra hShort
  rw [not_le] at hShort
  have hReached : (1 + 4 / 10 ^ 28) * (r + 1 / 10 ^ 28) ≤ |s| * (1 - 14 / 10 ^ 28) := by linarith
  have hLeft : 0 ≤ (1 + 4 / 10 ^ 28) * (r + 1 / 10 ^ 28) := by
    have := h.root.pos
    positivity
  have hHigh := h.root.reaches.trans (pow_le_pow_left₀ hLeft hReached 2)
  rw [mul_pow, sq_abs] at hHigh
  -- from one fifth on a unit is few parts of the square
  have hLow := h.le_radicand hc
  have hLarge : 1 / 25 ≤ s ^ 2 := by
    rw [← sq_abs]
    nlinarith
  linarith

theorem le_sum (h : RootOfSum s c q v r) (hc : 0 < c) (hs : 0 ≤ s) : r ≤ 11 / 10 * (s + c + 1) := by
  have hProduct := mul_nonneg hs hc.le
  have hSquare : s ^ 2 + c + 1 ≤ (s + c + 1) ^ 2 := by nlinarith
  have hRadicand : v ≤ ((1 + 2 / 10 ^ 28) * (s + c + 1)) ^ 2 := by
    rw [mul_pow]
    have hLe := h.radicand_le hc
    have hsq := sq_nonneg s
    linarith
  have hRoot := h.root.le_add _ (by positivity) hRadicand
  linarith

/-- Below the computed root, less roundings, lies a number that is neither under `s` nor, in exact
terms, over the root. -/
theorem exists_le {g : ℚ} (h : RootOfSum s c q v r) (hc : 0 < c) (hs : 0 ≤ s)
    (hg : g * c = (1 + c) / 10 ^ 28) (hUnit : 1 / 10 ^ 28 ≤ g) :
    ∃ e, s ≤ e ∧ e ^ 2 ≤ s ^ 2 + c ∧ r - 10 * g - 36 * r * g ≤ e := by
  have hr := h.root.pos
  have hUnits : r / 10 ^ 28 ≤ r * g := by
    have := mul_le_mul_of_nonneg_left hUnit hr.le
    linarith
  rcases le_total r (10 / 10 ^ 28) with hTiny | hLarge
  · have hTerm := div_nonneg hr.le (show (0 : ℚ) ≤ 10 ^ 28 by positivity)
    exact ⟨s, le_rfl, by linarith, by linarith⟩
  · have hSquare := h.root.sq_le (hc.trans_le h.le) hLarge
    have hRoot : r = (r - 10 / 10 ^ 28) / (1 + 29 / 10 ^ 28) * (1 + 29 / 10 ^ 28) + 10 / 10 ^ 28 := by
      rw [div_mul_cancel₀ _ (by norm_num)]
      ring
    have hNonneg : 0 ≤ (r - 10 / 10 ^ 28) / (1 + 29 / 10 ^ 28) :=
      div_nonneg (by linarith) (by norm_num)
    generalize (r - 10 / 10 ^ 28) / (1 + 29 / 10 ^ 28) = y at hSquare hRoot hNonneg
    have hRadicand : v ≤ (s ^ 2 + c) * (1 + (3 / 10 ^ 28 + 2 * g)) := by
      have hLe := h.radicand_le hc
      have hsg := mul_nonneg (sq_nonneg s) (show 0 ≤ g by linarith)
      linarith
    have hFactor : 0 ≤ 3 / 10 ^ 28 + 2 * g := by linarith
    have hExact := div_one_add_sq_le hFactor (by positivity) (hSquare.trans hRadicand)
    have hLess := le_div_one_add hFactor hNonneg
    refine ⟨max (y / (1 + (3 / 10 ^ 28 + 2 * g))) s, le_max_right _ _, ?_, ?_⟩
    · rcases max_choice (y / (1 + (3 / 10 ^ 28 + 2 * g))) s with hMax | hMax <;> rw [hMax]
      · exact hExact
      · linarith
    · refine le_trans ?_ (le_max_left _ _)
      have hyg := mul_le_mul_of_nonneg_right (show y ≤ r by linarith) (show 0 ≤ g by linarith)
      linarith

theorem radicand_le_sq (h : RootOfSum s c q v r) :
    (1 + 10 / 10 ^ 28) * v ≤ ((1 + 10 / 10 ^ 28) * (r + 1 / 10 ^ 28)) ^ 2 := by
  have hReaches := h.root.reaches
  rw [ReachesRoot, mul_pow] at hReaches
  rw [mul_pow]
  have hsq := sq_nonneg (r + 1 / 10 ^ 28)
  linarith

/-- What squares to the exact radicand at most exceeds the computed root by roundings only. -/
theorem le_add_of_sq_le {d y g : ℚ} (h : RootOfSum s c q v r) (hc : 0 < c) (hd : RoundsSigned d s)
    (hg : g * c = (1 + c) / 10 ^ 28) (hUnit : 1 / 10 ^ 28 ≤ g) (hy : y ^ 2 ≤ d ^ 2 + c) :
    y ≤ (1 + 10 / 10 ^ 28) * (r + 1 / 10 ^ 28) + g := by
  have hr := h.root.pos
  have hgPos : 0 < g := lt_of_lt_of_le (by positivity) hUnit
  have hRadicand : d ^ 2 + c ≤ (1 + 10 / 10 ^ 28) * v + 2 / 10 ^ 28 := by
    have hLow := h.le_radicand hc
    have hSquare := hd.sq_le
    have hsq := sq_nonneg s
    linarith
  have hReached := h.radicand_le_sq
  have hReachPos : 0 < (1 + 10 / 10 ^ 28) * (r + 1 / 10 ^ 28) := by positivity
  generalize (1 + 10 / 10 ^ 28) * (r + 1 / 10 ^ 28) = reach at hReached hReachPos ⊢
  by_contra hFar
  rw [not_le] at hFar
  have hFarSquare : (reach + g) ^ 2 < y ^ 2 := pow_lt_pow_left₀ hFar (by positivity) two_ne_zero
  -- the root of `c` is at least `c / (1 + c)`, so the mixed term of the square makes up for the units
  have hMixed : 1 / 10 ^ 28 ≤ reach * g := by
    have hFloor := le_mul_of_sq_le hc hReachPos (by linarith [h.le])
    have hScaled : (1 + c) * (1 / 10 ^ 28) ≤ (1 + c) * (reach * g) := by
      linarith [mul_le_mul_of_nonneg_right hFloor hgPos.le]
    exact le_of_mul_le_mul_left hScaled (by positivity)
  linarith [sq_nonneg g]

end RootOfSum

section Shortfall

-- `g` is `(1 + 1 / c) / 10 ^ 28`, a unit of the last place over the least the root can be
variable {a x b c s q v r q' v' o g : ℚ}

/-- The computed root at `x`, with `x`, falls short of the computed root at zero by roundings only. -/
theorem sub_root_le (hx : 0 ≤ x) (hb : 0 ≤ b) (hc : 0 < c) (hg : g * c = (1 + c) / 10 ^ 28)
    (hUnit : 1 / 10 ^ 28 ≤ g) (hs : RoundsSigned (x - b) s) (h : RootOfSum s c q v r)
    (hOrigin : RootOfSum b c q' v' o) : o - (r + x) ≤ 64 * ((b + c + 1) * g) := by
  obtain ⟨e, hbe, he, hLow⟩ := hOrigin.exists_le hc hb hg hUnit
  have hr := h.root.pos
  have hgNonneg : 0 ≤ g := by linarith
  have hog := mul_le_mul_of_nonneg_right (hOrigin.le_sum hc hb) hgNonneg
  have hGrain : g ≤ (b + c + 1) * g := le_mul_of_one_le_left hgNonneg (by linarith)
  rcases le_total e x with hPast | hBefore
  · linarith
  · have hExact : (e - x) ^ 2 ≤ (x - b) ^ 2 + c := by nlinarith
    have hReach := h.le_add_of_sq_le hc hs hg hUnit hExact
    rcases le_total (e - x) r with hReached | hShort
    · linarith
    · have hBound : e ≤ b + c + 1 := by
        refine (sq_le_sq₀ (hb.trans hbe) (by positivity)).mp ?_
        nlinarith [mul_nonneg hb hc.le]
      have hPart : r * (1 / 10 ^ 28) ≤ (b + c + 1) * g :=
        mul_le_mul (by linarith) hUnit (by positivity) (by positivity)
      linarith

theorem neg_le_reserve {p upper lower reserve : ℚ} (ha : 0 ≤ a) (hx : 0 ≤ x) (hb : 0 ≤ b) (hc : 0 < c)
    (hg : g * c = (1 + c) / 10 ^ 28) (hUnit : 1 / 10 ^ 28 ≤ g) (hs : RoundsSigned (x - b) s)
    (h : RootOfSum s c q v r) (hOrigin : RootOfSum b c q' v' o) (hp : RoundsSigned (r + x) p)
    (hUpper : RoundsSigned (a * p) upper) (hLower : RoundsSigned (a * o) lower)
    (hReserve : RoundsSigned (upper - lower) reserve) :
    -(70 * (a * ((b + c + 1) * g)) + 2 / 10 ^ 28) ≤ reserve := by
  have hgNonneg : 0 ≤ g := by linarith
  have hSum : 0 ≤ b + c + 1 := by positivity
  have hScale : 0 ≤ a * ((b + c + 1) * g) := by positivity
  rcases le_total o p with hRising | hFalling
  · -- the products are in order, and rounding keeps the order
    have hOrder := RoundsSigned.mono (mul_le_mul_of_nonneg_left hRising ha) hLower hUpper
    have hNonneg := hReserve.nonneg (sub_nonneg.mpr hOrder)
    linarith
  · have hUnits := mul_le_mul_of_nonneg_left hUnit hSum
    have hOriginLe := hOrigin.le_sum hc hb
    have hShort : o - p ≤ 66 * ((b + c + 1) * g) := by
      have hRoot := sub_root_le hx hb hc hg hUnit hs h hOrigin
      have hSumLow := hp.sub_le (add_nonneg h.root.pos.le hx)
      linarith
    have hProducts := mul_le_mul_of_nonneg_left hShort ha
    have hOriginProduct := mul_le_mul_of_nonneg_left hOriginLe ha
    have hUpperProduct := mul_le_mul_of_nonneg_left hFalling ha
    have hUnitProducts := mul_le_mul_of_nonneg_left hUnits ha
    have hpNonneg := hp.nonneg (add_nonneg h.root.pos.le hx)
    have hUpperLow := hUpper.sub_le (mul_nonneg ha hpNonneg)
    have hLowerHigh := hLower.le_add (mul_nonneg ha hOrigin.root.pos.le)
    have hDifference : -(69 * (a * ((b + c + 1) * g)) + 1 / 10 ^ 28) ≤ upper - lower := by linarith
    have hLow := hReserve.neg_le (by positivity) hDifference
    linarith

end Shortfall

namespace Decimal

variable {s c q v r : Decimal}

/-- Below one fifth the root does not fall short of `|s|`: everything is a multiple of `10 ^ -28`, and
`c` is one at least. -/
theorem abs_le_of_rootOfSum (h : RootOfSum s.toRat c.toRat q.toRat v.toRat r.toRat) (hc : 0 < c.toRat)
    (hs : |s.toRat| < 1 / 5) : |s.toRat| ≤ r.toRat := by
  by_contra hShort
  rw [not_le] at hShort
  have hMagnitude : (s.toMagnitude.withSign false).toRat = |s.toRat| := by
    rw [toRat_withSign, abs_toRat, if_neg Bool.false_ne_true]
  have hUnit : r.toRat + 1 / 10 ^ 28 ≤ |s.toRat| := by
    rw [← hMagnitude] at hShort ⊢
    exact toRat_add_unit_le hShort
  have hReached : (1 + 4 / 10 ^ 28) * (r.toRat + 1 / 10 ^ 28) ≤ (1 + 4 / 10 ^ 28) * |s.toRat| :=
    mul_le_mul_of_nonneg_left hUnit (by norm_num)
  have hLeft : 0 ≤ (1 + 4 / 10 ^ 28) * (r.toRat + 1 / 10 ^ 28) := by
    have := h.root.pos
    positivity
  have hHigh := h.root.reaches.trans (pow_le_pow_left₀ hLeft hReached 2)
  rw [mul_pow, sq_abs] at hHigh
  have hSmall : s.toRat ^ 2 ≤ 1 / 25 := by
    rw [← sq_abs]
    nlinarith [abs_nonneg s.toRat]
  rcases le_or_gt 1 c.toRat with hLarge | hLess
  · have hOne : 1 ≤ v.toRat :=
      h.sum.le_of_exact ⟨1, toRat_one⟩ (by linarith [h.square_nonneg])
    linarith
  · have hcUnit := unit_le hc
    have hSquare : s.toRat ^ 2 - 1 / 2 / 10 ^ 28 ≤ q.toRat := by
      rcases h.square.abs_sub_le with hError | hError
      · linarith [(abs_le.mp hError).1]
      · rw [abs_of_nonneg (sq_nonneg s.toRat)] at hError
        linarith [(abs_le.mp hError).1]
    have hSquareLe := h.square.le_add (sq_nonneg _)
    have hGrid := (onGrid_toRat q.scale_le).add (onGrid_toRat c.scale_le)
    have hExact := exact_of_lt_two hGrid (add_nonneg h.square_nonneg hc.le) (by linarith)
    rw [h.sum.eq_of_exact hExact] at hHigh
    linarith

theorem abs_le_mul_of_rootOfSum (h : RootOfSum s.toRat c.toRat q.toRat v.toRat r.toRat) (hc : 0 < c.toRat) :
    |s.toRat| ≤ (1 + 24 / 10 ^ 28) * r.toRat := by
  have hr := h.root.pos
  rcases lt_or_ge |s.toRat| (1 / 5) with hSmall | hLarge
  · linarith [abs_le_of_rootOfSum h hc hSmall]
  · linarith [h.abs_mul_le hc hLarge]

theorem le_div_of_rootOfSum (h : RootOfSum s.toRat c.toRat q.toRat v.toRat r.toRat) (hc : 0 < c.toRat) :
    -(1 + 24 / 10 ^ 28) ≤ s.toRat / r.toRat := by
  have hAbs := abs_le_mul_of_rootOfSum h hc
  rw [le_div_iff₀ h.root.pos]
  linarith [(abs_le.mp hAbs).1]

end Decimal

namespace Curve

open Decimal

variable {a b c x price : Decimal}

theorem rootOfSum_of_root {s square radicand root : Decimal} (hc : 0 < c.toRat)
    (hSquare : s.mul s = .ok square) (hSum : square.add c = .ok radicand)
    (hRoot : radicand.root = .ok root) :
    RootOfSum s.toRat c.toRat square.toRat radicand.toRat root.toRat := by
  have hPos := radicand_pos hc hSquare hSum
  have hSquareRounds := (computes_mul? s s).rounds (checked_eq_ok_iff.mp hSquare)
  rw [← pow_two] at hSquareRounds
  have hNear := (near_of_rootWithin hPos hRoot).2
  have hSumRounds := (computes_add? square c).rounds (checked_eq_ok_iff.mp hSum)
  have hSquareNonneg := hSquareRounds.nonneg (sq_nonneg _)
  exact ⟨hSquareRounds, hSumRounds, hSumRounds.le_of_exact c.exact_toRat (by linarith), hNear⟩

theorem sigmoidRoot_spec {shifted root : Decimal} (hc : 0 < c.toRat)
    (h : sigmoidRoot x b c = .ok (shifted, root)) :
    RoundsSigned (x.toRat - b.toRat) shifted.toRat ∧ ∃ square radicand : Decimal,
      RootOfSum shifted.toRat c.toRat square.toRat radicand.toRat root.toRat := by
  rw [sigmoidRoot] at h
  obtain ⟨s, hShifted, h⟩ := bind_eq_ok_iff.mp h
  obtain ⟨square, hSquare, h⟩ := bind_eq_ok_iff.mp h
  obtain ⟨radicand, hSum, h⟩ := bind_eq_ok_iff.mp h
  obtain ⟨r, hRoot, h⟩ := bind_eq_ok_iff.mp h
  cases h
  exact ⟨(computes_sub? x b).rounds (checked_eq_ok_iff.mp hShifted), square, radicand,
    rootOfSum_of_root hc hSquare hSum hRoot⟩

/-- The roundings that make a spot price. -/
theorem sigmoid_priceAt_spec (hc : 0 < c.toRat) (h : (sigmoid a b c).priceAt x = .ok price) :
    ∃ shifted square radicand root ratio sum : Decimal, RoundsSigned (x.toRat - b.toRat) shifted.toRat ∧
      RootOfSum shifted.toRat c.toRat square.toRat radicand.toRat root.toRat ∧
      RoundsSigned (shifted.toRat / root.toRat) ratio.toRat ∧ RoundsSigned (ratio.toRat + 1) sum.toRat ∧
      RoundsSigned (a.toRat * sum.toRat) price.toRat := by
  rw [priceAt] at h
  obtain ⟨⟨shifted, root⟩, hRoot, h⟩ := bind_eq_ok_iff.mp h
  obtain ⟨ratio, hRatio, h⟩ := bind_eq_ok_iff.mp h
  obtain ⟨sum, hSum, hPrice⟩ := bind_eq_ok_iff.mp h
  obtain ⟨hShifted, square, radicand, hRootOfSum⟩ := sigmoidRoot_spec hc hRoot
  have hSumRounds := (computes_add? ratio 1).rounds (checked_eq_ok_iff.mp hSum)
  rw [toRat_one] at hSumRounds
  exact ⟨shifted, square, radicand, root, ratio, sum, hShifted, hRootOfSum,
    (computes_div? hRootOfSum.root.pos.ne').rounds (checked_eq_ok_iff.mp hRatio), hSumRounds,
    (computes_mul? a sum).rounds (checked_eq_ok_iff.mp hPrice)⟩

/-- The roundings that make a reserve. -/
theorem sigmoidIntegral_spec {reserve : Decimal} (hc : 0 < c.toRat)
    (h : sigmoidIntegral a b c x = .ok reserve) :
    ∃ shifted square radicand root square' radicand' origin sum upper lower : Decimal,
      RoundsSigned (x.toRat - b.toRat) shifted.toRat ∧
      RootOfSum shifted.toRat c.toRat square.toRat radicand.toRat root.toRat ∧
      RootOfSum b.toRat c.toRat square'.toRat radicand'.toRat origin.toRat ∧
      RoundsSigned (root.toRat + x.toRat) sum.toRat ∧ RoundsSigned (a.toRat * sum.toRat) upper.toRat ∧
      RoundsSigned (a.toRat * origin.toRat) lower.toRat ∧
      RoundsSigned (upper.toRat - lower.toRat) reserve.toRat := by
  rw [sigmoidIntegral] at h
  obtain ⟨⟨shifted, root⟩, hRoot, h⟩ := bind_eq_ok_iff.mp h
  obtain ⟨sum, hSum, h⟩ := bind_eq_ok_iff.mp h
  obtain ⟨upper, hUpper, h⟩ := bind_eq_ok_iff.mp h
  obtain ⟨square', hSquare, h⟩ := bind_eq_ok_iff.mp h
  obtain ⟨radicand', hRadicand, h⟩ := bind_eq_ok_iff.mp h
  obtain ⟨origin, hOrigin, h⟩ := bind_eq_ok_iff.mp h
  obtain ⟨lower, hLower, hReserve⟩ := bind_eq_ok_iff.mp h
  obtain ⟨hShifted, square, radicand, hRootOfSum⟩ := sigmoidRoot_spec hc hRoot
  exact ⟨shifted, square, radicand, root, square', radicand', origin, sum, upper, lower, hShifted, hRootOfSum,
    rootOfSum_of_root hc hSquare hRadicand hOrigin,
    (computes_add? root x).rounds (checked_eq_ok_iff.mp hSum),
    (computes_mul? a sum).rounds (checked_eq_ok_iff.mp hUpper),
    (computes_mul? a origin).rounds (checked_eq_ok_iff.mp hLower),
    (computes_sub? upper lower).rounds (checked_eq_ok_iff.mp hReserve)⟩

theorem sigmoid_priceAt_ge (ha : 0 ≤ a.toRat) (hc : 0 < c.toRat)
    (h : (sigmoid a b c).priceAt x = .ok price) :
    (b.toRat ≤ x.toRat → 0 ≤ price.toRat) ∧ -((28 * a.toRat + 1) / 10 ^ 28) ≤ price.toRat := by
  obtain ⟨shifted, _, _, root, ratio, sum, hShifted, hRootOfSum, hRatio, hSum, hPrice⟩ :=
    sigmoid_priceAt_spec hc h
  have hr := hRootOfSum.root.pos
  constructor
  · intro hAbove
    have hRatioNonneg := hRatio.nonneg (div_nonneg (hShifted.nonneg (sub_nonneg.mpr hAbove)) hr.le)
    exact hPrice.nonneg (mul_nonneg ha (hSum.nonneg (by linarith)))
  · have hRatioLow := hRatio.neg_le (by norm_num) (le_div_of_rootOfSum hRootOfSum hc)
    have hSumLow := hSum.neg_le (d := 26 / 10 ^ 28) (by norm_num) (by linarith)
    have hProduct : -(a.toRat * (27 / 10 ^ 28)) ≤ a.toRat * sum.toRat := by
      rw [← mul_neg]
      exact mul_le_mul_of_nonneg_left (by linarith) ha
    have hPriceLow := hPrice.neg_le (by positivity) hProduct
    linarith

/-- The reserve is not negative but for roundings, which small `c` makes coarse. -/
theorem sigmoidIntegral_ge {reserve : Decimal} (ha : 0 ≤ a.toRat) (hb : 0 ≤ b.toRat) (hc : 0 < c.toRat)
    (hx : 0 ≤ x.toRat) (h : sigmoidIntegral a b c x = .ok reserve) :
    -((70 * (a.toRat * (b.toRat + c.toRat + 1) * (1 + 1 / c.toRat)) + 2) / 10 ^ 28) ≤ reserve.toRat := by
  obtain ⟨_, _, _, _, _, _, _, _, _, _, hShifted, hRootOfSum, hOriginOfSum, hSum, hUpper, hLower, hReserve⟩ :=
    sigmoidIntegral_spec hc h
  have hGrain : (1 + 1 / c.toRat) / 10 ^ 28 * c.toRat = (1 + c.toRat) / 10 ^ 28 := by
    field_simp
    ring
  have hUnit : (1 : ℚ) / 10 ^ 28 ≤ (1 + 1 / c.toRat) / 10 ^ 28 := by
    have hShare : 0 ≤ 1 / c.toRat := by positivity
    exact div_le_div_of_nonneg_right (by linarith) (by positivity)
  have hLow := neg_le_reserve ha hx hb hc hGrain hUnit hShifted hRootOfSum hOriginOfSum hSum hUpper hLower hReserve
  linarith

end Curve

end BondingCurve
