import BondingCurve.Proofs.Decimal.Canonical

/-!
# How a sum is written

Below two a mantissa has room for 28 places, so a sum or a difference is exact and is written with the places of the
longer operand, a zero not counted. Then it does not matter for the digits whether a supply is reached in two steps or
in one, and the powers of both agree. From two on the powers that depend on the digits do not exist.
-/

namespace BondingCurve

theorem Magnitude.fit_of_lt {m s : Nat} (hm : m < 2 ^ 96) (hs : s ≤ 28) :
    Magnitude.fit m s = some ⟨m, s, hm, hs⟩ := by
  have hWhole : Magnitude.of? (roundHalfEven m 0) (s - 0) = some ⟨m, s, hm, hs⟩ :=
    Magnitude.of?_eq_some_iff.mpr ⟨(roundHalfEven_zero m).symm, rfl⟩
  rw [Magnitude.fit, Nat.sub_eq_zero_of_le hs, Magnitude.fitFrom, if_pos (Nat.zero_le s), hWhole]

namespace Decimal

variable {x y z a b sum once twice direct : Decimal} {n : Nat}

theorem scale_ofUnscaled {v : ℤ} {scale : Nat} (hScale : scale ≤ 28) (hv : |(v : ℚ) / 10 ^ scale| < 2)
    (h : ofUnscaled v scale = some z) : z.scale = scale := by
  have hPow : (10 : ℚ) ^ scale ≤ 10 ^ 28 := pow_le_pow_right₀ (by norm_num) hScale
  have hUnits : v.natAbs < 2 ^ 96 := by
    rw [abs_div, abs_of_pos (by positivity : (0 : ℚ) < 10 ^ scale), div_lt_iff₀ (by positivity), ← Int.cast_abs,
      ← Nat.cast_natAbs] at hv
    have hRat : (v.natAbs : ℚ) < (2 ^ 96 : Nat) := by
      push_cast
      linarith
    exact_mod_cast hRat
  rw [ofUnscaled, Magnitude.fit_of_lt hUnits hScale] at h
  cases h
  rfl

/-- The places of a sum or a difference that is written in full. -/
def sumScale (x y : Decimal) : Nat :=
  if x.mantissa = 0 then y.scale else if y.mantissa = 0 then x.scale else max x.scale y.scale

theorem scale_add? (h : x.add? y = some z) (hv : |x.toRat + y.toRat| < 2) : z.scale = sumScale x y := by
  rw [add?] at h
  rw [sumScale]
  split at h
  · rename_i hx
    cases h
    rw [if_pos hx]
  · rename_i hx
    rw [if_neg hx]
    split at h
    · rename_i hy
      cases h
      rw [if_pos hy]
    · rename_i hy
      rw [if_neg hy]
      apply scale_ofUnscaled (max_le x.scale_le y.scale_le) _ h
      rwa [Int.cast_add, add_div, unscaledAt_div x (le_max_left _ _), unscaledAt_div y (le_max_right _ _)]

theorem scale_sub? (hx : x.mantissa ≠ 0) (h : x.sub? y = some z) (hv : |x.toRat - y.toRat| < 2) :
    z.scale = sumScale x y := by
  rw [sub?, if_neg hx] at h
  rw [sumScale, if_neg hx]
  split at h
  · rename_i hy
    cases h
    rw [if_pos hy]
  · rename_i hy
    rw [if_neg hy]
    apply scale_ofUnscaled (max_le x.scale_le y.scale_le) _ h
    rwa [Int.cast_sub, sub_div, unscaledAt_div x (le_max_left _ _), unscaledAt_div y (le_max_right _ _)]

theorem eq_of_scale_eq (h : x.toRat = y.toRat) (hx : x.toRat ≠ 0) (hScale : x.scale = y.scale) : x = y := by
  have hSign := negative_eq_of_toRat_eq h hx
  have hMantissa : x.mantissa = y.mantissa := by
    have hAbs : x.toMagnitude.toRat = y.toMagnitude.toRat := by rw [← abs_toRat, ← abs_toRat, h]
    rw [Magnitude.toRat, Magnitude.toRat, hScale, div_left_inj' (by positivity)] at hAbs
    exact_mod_cast hAbs
  obtain ⟨⟨_, _, _, _⟩, _⟩ := x
  obtain ⟨⟨_, _, _, _⟩, _⟩ := y
  cases hScale
  cases hMantissa
  cases hSign
  rfl

/-- Only between zero and two does it matter for a power how its base is written. -/
theorem powersAgree_of_scale_eq (h : x.toRat = y.toRat) (hScale : x.toRat ≠ 0 → x.toRat < 2 → x.scale = y.scale) :
    PowersAgree n x y := by
  rcases lt_or_ge x.toRat 2 with hSmall | hLarge
  · by_cases hZero : x.toRat = 0
    · exact .inr (.inr (.inl hZero))
    · exact .inr (.inl (eq_of_scale_eq h hZero (hScale hZero hSmall)))
  · exact .inr (.inr (.inr (.inr hLarge)))

/-- `z` is the sum of `x` and `y`, neither of them negative, in full. -/
structure IsSum (x y z : Decimal) : Prop where
  left : 0 ≤ x.toRat
  right : 0 ≤ y.toRat
  value : z.toRat = x.toRat + y.toRat
  scale : z.scale = sumScale x y

theorem isSum_of_add? (hx : 0 ≤ x.toRat) (hy : 0 ≤ y.toRat) (h : x.add? y = some z) (hz : z.toRat < 2) :
    IsSum x y z := by
  have hRounds := (computes_add? x y).rounds h
  have hSum : x.toRat + y.toRat < 2 := by
    by_contra hLarge
    have hTwo := hRounds.le_of_exact ⟨ofNat 2, toRat_ofNat 2 (by decide)⟩ (not_lt.mp hLarge)
    push_cast at hTwo
    linarith
  have hGrid := (onGrid_toRat x.scale_le).add (onGrid_toRat y.scale_le)
  exact ⟨hx, hy, hRounds.eq_of_exact (exact_of_lt_two hGrid (add_nonneg hx hy) hSum),
    scale_add? h (by rwa [abs_of_nonneg (add_nonneg hx hy)])⟩

theorem IsSum.mantissa_eq_zero_iff (h : IsSum x y z) : z.mantissa = 0 ↔ x.mantissa = 0 ∧ y.mantissa = 0 := by
  rw [← toRat_eq_zero_iff, ← toRat_eq_zero_iff, ← toRat_eq_zero_iff, h.value,
    add_eq_zero_iff_of_nonneg h.left h.right]

theorem IsSum.scale_assoc (hOnce : IsSum x a once) (hTwice : IsSum once b twice) (hSum : IsSum a b sum)
    (hDirect : IsSum x sum direct) : twice.scale = direct.scale := by
  rw [hTwice.scale, hDirect.scale, sumScale, sumScale, hOnce.scale, hSum.scale, sumScale, sumScale]
  simp only [hOnce.mantissa_eq_zero_iff, hSum.mantissa_eq_zero_iff]
  by_cases hx : x.mantissa = 0 <;> by_cases ha : a.mantissa = 0 <;> by_cases hb : b.mantissa = 0 <;>
    simp [hx, ha, hb, max_assoc]

/-- Two amounts added to a supply in turn and their sum added at once. -/
theorem powersAgree_add_add (hx : 0 ≤ x.toRat) (ha : 0 ≤ a.toRat) (hb : 0 ≤ b.toRat)
    (hOnce : x.add? a = some once) (hTwice : once.add? b = some twice) (hSum : a.add? b = some sum)
    (hDirect : x.add? sum = some direct) (hSame : twice.toRat = direct.toRat) : PowersAgree n twice direct := by
  refine powersAgree_of_scale_eq hSame fun _ hSmall => ?_
  have hOnceNonneg := ((computes_add? x a).rounds hOnce).nonneg (add_nonneg hx ha)
  have hSumNonneg := ((computes_add? a b).rounds hSum).nonneg (add_nonneg ha hb)
  have hLast := isSum_of_add? hOnceNonneg hb hTwice hSmall
  have hAll := isSum_of_add? hx hSumNonneg hDirect (hSame ▸ hSmall)
  have hFirst := isSum_of_add? hx ha hOnce (by linarith [hLast.value])
  exact hFirst.scale_assoc hLast (isSum_of_add? ha hb hSum (by linarith [hAll.value])) hAll

/-- `z` is `x` less `y`, none of them negative, in full. -/
structure IsRest (x y z : Decimal) : Prop where
  left : 0 ≤ z.toRat
  right : 0 ≤ y.toRat
  value : z.toRat = x.toRat - y.toRat
  scale : x.mantissa ≠ 0 → z.scale = sumScale x y

theorem isRest_of_sub? (hy : 0 ≤ y.toRat) (hLe : y.toRat ≤ x.toRat) (hx : x.toRat < 2) (h : x.sub? y = some z) :
    IsRest x y z := by
  have hRounds := (computes_sub? x y).rounds h
  have hGrid := (onGrid_toRat x.scale_le).sub (onGrid_toRat y.scale_le)
  have hExact := exact_of_lt_two hGrid (sub_nonneg.mpr hLe) (by linarith)
  refine ⟨hRounds.nonneg (sub_nonneg.mpr hLe), hy, hRounds.eq_of_exact hExact, fun hNonzero => ?_⟩
  exact scale_sub? hNonzero h (by rw [abs_of_nonneg (sub_nonneg.mpr hLe)]; linarith)

theorem IsRest.mantissa_ne_zero (h : IsRest x y z) (hz : z.mantissa ≠ 0) : x.mantissa ≠ 0 := by
  rw [Ne, ← toRat_eq_zero_iff] at hz ⊢
  intro hx
  have hValue := h.value
  rw [hx] at hValue
  exact hz (le_antisymm (by linarith [h.right]) h.left)

theorem IsRest.scale_assoc (hOnce : IsRest x a once) (hTwice : IsRest once b twice) (hSum : IsSum a b sum)
    (hDirect : IsRest x sum direct) (hLeft : twice.mantissa ≠ 0) : twice.scale = direct.scale := by
  have hNonzero := hTwice.mantissa_ne_zero hLeft
  have hx := hOnce.mantissa_ne_zero hNonzero
  rw [hTwice.scale hNonzero, hDirect.scale hx, sumScale, if_neg hNonzero, sumScale, if_neg hx, hOnce.scale hx,
    hSum.scale, sumScale, if_neg hx, sumScale]
  simp only [hSum.mantissa_eq_zero_iff]
  by_cases ha : a.mantissa = 0 <;> by_cases hb : b.mantissa = 0 <;> simp [ha, hb, max_assoc]

/-- Two amounts taken from a supply below two in turn and their sum taken at once. -/
theorem powersAgree_sub_sub (hx : x.toRat < 2) (ha : 0 ≤ a.toRat) (hb : 0 ≤ b.toRat) (hLeA : a.toRat ≤ x.toRat)
    (hLeB : b.toRat ≤ once.toRat) (hOnce : x.sub? a = some once) (hTwice : once.sub? b = some twice)
    (hSum : a.add? b = some sum) (hDirect : x.sub? sum = some direct) : PowersAgree n twice direct := by
  have hFirst := isRest_of_sub? ha hLeA hx hOnce
  have hLast := isRest_of_sub? hb hLeB (by linarith [hFirst.value]) hTwice
  have hWithin := ((computes_add? a b).rounds hSum).ge_of_exact x.exact_toRat (by linarith [hFirst.value])
  have hTogether := isSum_of_add? ha hb hSum (by linarith)
  have hAll := isRest_of_sub? (hTogether.value ▸ add_nonneg ha hb) hWithin hx hDirect
  have hSame : twice.toRat = direct.toRat := by
    rw [hLast.value, hFirst.value, hAll.value, hTogether.value, sub_sub]
  refine powersAgree_of_scale_eq hSame fun hNonzero _ => ?_
  exact hFirst.scale_assoc hLast hTogether hAll (mt toRat_eq_zero_iff.mpr hNonzero)

end Decimal

end BondingCurve
