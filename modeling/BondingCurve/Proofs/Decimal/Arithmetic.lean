import BondingCurve.Proofs.Decimal.Grid
import BondingCurve.Proofs.Decimal.Nearest

/-!
# Sums, differences and products are rounded once

Each operation forms the exact result and rounds its magnitude by the one rule; it fails exactly
when no rounding of the result fits. Monotonicity and exactness on decimals carry over from the
rule.
-/

namespace BondingCurve

/-- `r` is `v` with its magnitude rounded. -/
structure RoundsSigned (v r : ℚ) : Prop where
  magnitude : Rounds |v| |r|
  nonneg : 0 ≤ v → 0 ≤ r
  nonpos : v ≤ 0 → r ≤ 0

namespace RoundsSigned

variable {u v w r s : ℚ}

theorem rounds (h : RoundsSigned v r) (hv : 0 ≤ v) : Rounds v r := by
  have hMagnitude := h.magnitude
  rwa [abs_of_nonneg hv, abs_of_nonneg (h.nonneg hv)] at hMagnitude

theorem of_rounds (hv : 0 ≤ v) (h : Rounds v r) : RoundsSigned v r where
  magnitude := by rwa [abs_of_nonneg hv, abs_of_nonneg h.nonneg]
  nonneg _ := h.nonneg
  nonpos hv' := by
    have hZero : v = 0 := le_antisymm hv' hv
    have hRepresentable : Representable v := ⟨.zero, by rw [hZero]; simp [Magnitude.zero, Magnitude.toRat]⟩
    rw [h.eq_of_representable hRepresentable, hZero]

theorem neg (h : RoundsSigned v r) : RoundsSigned (-v) (-r) where
  magnitude := by rw [abs_neg, abs_neg]; exact h.magnitude
  nonneg hv := by have := h.nonpos (by linarith); linarith
  nonpos hv := by have := h.nonneg (by linarith); linarith

theorem mono (h : v ≤ w) (hr : RoundsSigned v r) (hs : RoundsSigned w s) : r ≤ s := by
  rcases le_total 0 v with hv | hv
  · exact Rounds.mono hv h (hr.rounds hv) (hs.rounds (hv.trans h))
  · rcases le_total 0 w with hw | hw
    · exact (hr.nonpos hv).trans (hs.nonneg hw)
    · have hMono := Rounds.mono (by linarith) (neg_le_neg h) (hs.neg.rounds (by linarith))
        (hr.neg.rounds (by linarith))
      linarith

end RoundsSigned

def Exact (v : ℚ) : Prop := ∃ x : Decimal, x.toRat = v

theorem Decimal.exact_toRat (x : Decimal) : Exact x.toRat := ⟨x, rfl⟩

theorem exact_natCast {n : Nat} (h : n < 2 ^ 96) : Exact (n : ℚ) :=
  ⟨Decimal.ofNat n h, Decimal.toRat_ofNat n h⟩

theorem Exact.representable_abs {v : ℚ} (h : Exact v) : Representable |v| := by
  obtain ⟨x, rfl⟩ := h
  exact ⟨x.toMagnitude, (Decimal.abs_toRat x).symm⟩

theorem Exact.neg {v : ℚ} (h : Exact v) : Exact (-v) := by
  obtain ⟨x, rfl⟩ := h
  exact ⟨x.negate, Decimal.toRat_negate x⟩

theorem Exact.roundsSigned {v : ℚ} (h : Exact v) : RoundsSigned v v where
  magnitude := h.representable_abs.rounds
  nonneg := id
  nonpos := id

theorem roundsSigned_zero : RoundsSigned 0 (0 : Decimal).toRat :=
  Decimal.toRat_zero.symm ▸ Exact.roundsSigned ⟨0, Decimal.toRat_zero⟩

theorem exact_of_mantissa {v : ℚ} (m places : Nat) (hm : m < 2 ^ 96) (hPlaces : places ≤ 28)
    (h : |v| * 10 ^ places = m) : Exact v := by
  have hValue : |v| = (⟨m, places, hm, hPlaces⟩ : Magnitude).toRat := by
    unfold Magnitude.toRat
    rw [← h, mul_div_cancel_right₀ _ (by positivity)]
  refine ⟨Magnitude.withSign ⟨m, places, hm, hPlaces⟩ (decide (v < 0)), ?_⟩
  rw [Decimal.toRat_withSign, ← hValue]
  by_cases hv : v < 0
  · simp [hv, abs_of_neg hv]
  · simp [hv, abs_of_nonneg (not_lt.mp hv)]

/-- On a grid of at most 28 places what fits ninety-six bits is a decimal. -/
theorem exact_of_onGrid {places : Nat} {v : ℚ} (hPlaces : places ≤ 28) (hv : OnGrid places v)
    (h : |v| * 10 ^ places < 2 ^ 96) : Exact v := by
  obtain ⟨k, hk⟩ := hv
  have hUnits : |v| * 10 ^ places = (k.natAbs : ℚ) := by
    rw [Nat.cast_natAbs, Int.cast_abs, ← hk, abs_mul, abs_of_pos (by positivity : (0 : ℚ) < 10 ^ places)]
  rw [hUnits] at h
  exact exact_of_mantissa k.natAbs places (by exact_mod_cast h) hPlaces hUnits

theorem exact_of_lt_two {v : ℚ} (hGrid : OnGrid 28 v) (hLow : 0 ≤ v) (h : v < 2) : Exact v := by
  apply exact_of_onGrid le_rfl hGrid
  rw [abs_of_nonneg hLow]
  linarith

namespace RoundsSigned

variable {u v r : ℚ}

theorem eq_of_exact (hv : Exact v) (h : RoundsSigned v r) : r = v :=
  le_antisymm (mono le_rfl h hv.roundsSigned) (mono le_rfl hv.roundsSigned h)

theorem le_of_exact (hu : Exact u) (h : RoundsSigned v r) (hLe : u ≤ v) : u ≤ r :=
  mono hLe hu.roundsSigned h

theorem ge_of_exact (hu : Exact u) (h : RoundsSigned v r) (hLe : v ≤ u) : r ≤ u :=
  mono hLe h hu.roundsSigned

end RoundsSigned

/-- An operation with exact result `v`: it rounds, or it fails and no rounding would fit. -/
def Computes (v : ℚ) : Option Decimal → Prop
  | some x => RoundsSigned v x.toRat
  | none => ∀ r, ¬Rounds |v| r

namespace Computes

variable {v w : ℚ} {o : Option Decimal} {x : Decimal}

theorem rounds (h : Computes v o) (hx : o = some x) : RoundsSigned v x.toRat := by
  subst hx
  exact h

theorem exists_of_rounds {r : ℚ} (h : Computes v o) (hr : Rounds |v| r) : ∃ x, o = some x := by
  cases o with
  | none => exact absurd hr (h r)
  | some x => exact ⟨x, rfl⟩

theorem exists_of_abs_le {o' : Option Decimal} {y : Decimal} (h : Computes v o)
    (h' : Computes w o') (hy : o' = some y) (hLe : |v| ≤ |w|) : ∃ x, o = some x := by
  obtain ⟨r, hr⟩ := Rounds.exists_of_le (abs_nonneg v) hLe (h'.rounds hy).magnitude
  exact h.exists_of_rounds hr

theorem exists_of_abs_le_exact {u : ℚ} (h : Computes v o) (hu : Exact u) (hLe : |v| ≤ |u|) :
    ∃ x, o = some x := by
  obtain ⟨r, hr⟩ := Rounds.exists_of_le (abs_nonneg v) hLe hu.representable_abs.rounds
  exact h.exists_of_rounds hr

theorem exists_rounds_of_le_exact {u : ℚ} (h : Computes v o) (hv : 0 ≤ v) (hu : Exact u) (hLe : v ≤ u) :
    ∃ x, o = some x ∧ RoundsSigned v x.toRat := by
  obtain ⟨x, hx⟩ := h.exists_of_abs_le_exact hu (abs_le_abs_of_nonneg hv hLe)
  exact ⟨x, hx, h.rounds hx⟩

theorem eq_of_exact (h : Computes v o) (hv : Exact v) : ∃ x, o = some x ∧ x.toRat = v := by
  obtain ⟨x, hx⟩ := h.exists_of_abs_le_exact hv le_rfl
  exact ⟨x, hx, (h.rounds hx).eq_of_exact hv⟩

end Computes

theorem roundHalfEven_nearest (m k s : Nat) (hk : k ≤ s) :
    Nearest ((m : ℚ) / 10 ^ s * 10 ^ (s - k)) (roundHalfEven m k) := by
  have h := nearest_nearestQuotient m (d := 10 ^ k) (by positivity)
  have hPow : (10 : ℚ) ^ s = 10 ^ (s - k) * 10 ^ k := by rw [← pow_add, Nat.sub_add_cancel hk]
  have hUnits : (m : ℚ) / 10 ^ s * 10 ^ (s - k) = m / (10 ^ k : Nat) := by
    rw [hPow]
    push_cast
    field_simp
  rw [hUnits]
  exact h

theorem tooLongAt_of_le_roundHalfEven {m k s : Nat} (hk : k ≤ s) (h : 2 ^ 96 ≤ roundHalfEven m k) :
    TooLongAt (s - k) ((m : ℚ) / 10 ^ s) := by
  intro q hq
  rwa [hq.unique (roundHalfEven_nearest m k s hk)]

namespace Magnitude

def Fits (v : ℚ) : Option Magnitude → Prop
  | some x => Rounds v x.toRat
  | none => ∀ r, ¬Rounds v r

theorem fits_fitFrom (m s k : Nat) (hStart : s - 28 ≤ k)
    (hBefore : k = s - 28 ∨ k - 1 ≤ s ∧ 2 ^ 96 ≤ roundHalfEven m (k - 1)) :
    Fits ((m : ℚ) / 10 ^ s) (fitFrom m s k) := by
  fun_induction fitFrom m s k with
  | case1 k hk x hx =>
    obtain ⟨hMantissa, hScale⟩ := of?_eq_some_iff.mp hx
    have hValue : x.toRat = (roundHalfEven m k : ℚ) / 10 ^ (s - k) := by
      rw [toRat, hMantissa, hScale]
    have hPlaces : s - k ≤ 28 := by omega
    change Rounds _ _
    rcases Nat.eq_zero_or_pos k with rfl | hPositive
    · -- no digit goes, so the value is a decimal
      have hSame : (m : ℚ) / 10 ^ s = x.toRat := by simp [hValue, roundHalfEven_zero]
      rw [hSame]
      exact Representable.rounds ⟨x, rfl⟩
    · refine ⟨s - k, hPlaces, ⟨roundHalfEven m k, ?_, roundHalfEven_nearest m k s hk, hValue⟩, ?_⟩
      · rw [← hMantissa]
        exact x.mantissa_lt
      · rcases hBefore with hEq | ⟨hLe, hLong⟩
        · left
          omega
        · right
          have hNext : s - k + 1 = s - (k - 1) := by omega
          rw [hNext]
          exact tooLongAt_of_le_roundHalfEven hLe hLong
  | case2 k hk hx ih =>
    apply ih (by omega)
    right
    refine ⟨by omega, ?_⟩
    by_contra hShort
    unfold of? at hx
    rw [dif_pos ⟨by simpa using hShort, by omega⟩] at hx
    cases hx
  | case3 k hk =>
    intro r hr
    obtain ⟨hLe, hLong⟩ := hBefore.resolve_left (by omega)
    have hAll := tooLongAt_of_le_roundHalfEven hLe hLong
    rw [Nat.sub_eq_zero_of_le (by omega)] at hAll
    obtain ⟨t, _, hRounds, _⟩ := hr
    obtain ⟨y, hy⟩ := hRounds.of_le (by positivity) (Nat.zero_le t)
    exact hAll.not_roundsAt hy

theorem fits_fit (m s : Nat) : Fits ((m : ℚ) / 10 ^ s) (fit m s) :=
  fits_fitFrom m s _ le_rfl (.inl rfl)

/-- A fitted magnitude under the sign of an exact result. -/
theorem Fits.computes {v : ℚ} {o : Option Magnitude} (h : Fits |v| o) {f : Magnitude → Decimal}
    (hf : ∀ x, (f x).toRat = if v < 0 then -x.toRat else x.toRat) : Computes v (o.map f) := by
  cases o with
  | none => exact h
  | some x =>
    have hRounds : Rounds |v| x.toRat := h
    change RoundsSigned v (f x).toRat
    rw [hf]
    split
    · rename_i hv
      rw [abs_of_neg hv] at hRounds
      have := (RoundsSigned.of_rounds (by linarith) hRounds).neg
      rwa [neg_neg] at this
    · rename_i hv
      rw [abs_of_nonneg (not_lt.mp hv)] at hRounds
      exact .of_rounds (not_lt.mp hv) hRounds

end Magnitude

namespace Decimal

theorem computes_ofUnscaled (v : Int) (scale : Nat) :
    Computes ((v : ℚ) / 10 ^ scale) (ofUnscaled v scale) := by
  have hAbs : |(v : ℚ) / 10 ^ scale| = (v.natAbs : ℚ) / 10 ^ scale := by
    rw [abs_div, abs_of_pos (by positivity : (0 : ℚ) < 10 ^ scale), Nat.cast_natAbs, Int.cast_abs]
  have hFits := Magnitude.fits_fit v.natAbs scale
  rw [← hAbs] at hFits
  apply hFits.computes
  intro x
  have hSign : (v : ℚ) / 10 ^ scale < 0 ↔ v < 0 := by
    rw [div_lt_iff₀ (by positivity), zero_mul]
    exact_mod_cast Iff.rfl
  rw [toRat_signed]
  simp [hSign]

theorem unscaledAt_div (x : Decimal) {scale : Nat} (h : x.scale ≤ scale) :
    (x.unscaledAt scale : ℚ) / 10 ^ scale = x.toRat := by
  have hPow : (10 : ℚ) ^ scale = 10 ^ x.scale * 10 ^ (scale - x.scale) := by
    rw [← pow_add, Nat.add_sub_cancel' h]
  unfold unscaledAt toRat
  rw [hPow]
  push_cast
  field_simp

theorem computes_add? (x y : Decimal) : Computes (x.toRat + y.toRat) (x.add? y) := by
  unfold add?
  split
  · rename_i hx
    rw [toRat_eq_zero_iff.mpr hx, zero_add]
    exact y.exact_toRat.roundsSigned
  · split
    · rename_i hy
      rw [toRat_eq_zero_iff.mpr hy, add_zero]
      exact x.exact_toRat.roundsSigned
    · have h := computes_ofUnscaled
        (x.unscaledAt (max x.scale y.scale) + y.unscaledAt (max x.scale y.scale)) (max x.scale y.scale)
      rw [Int.cast_add, add_div, unscaledAt_div x (le_max_left _ _),
        unscaledAt_div y (le_max_right _ _)] at h
      exact h

theorem computes_sub? (x y : Decimal) : Computes (x.toRat - y.toRat) (x.sub? y) := by
  unfold sub?
  split
  · rename_i hx
    rw [toRat_eq_zero_iff.mpr hx, zero_sub]
    change RoundsSigned _ _
    split
    · rename_i hy
      rw [toRat_eq_zero_iff.mpr hy, neg_zero]
      exact Exact.roundsSigned ⟨0, toRat_zero⟩
    · rw [toRat_negate]
      exact y.exact_toRat.neg.roundsSigned
  · split
    · rename_i hy
      rw [toRat_eq_zero_iff.mpr hy, sub_zero]
      exact x.exact_toRat.roundsSigned
    · have h := computes_ofUnscaled
        (x.unscaledAt (max x.scale y.scale) - y.unscaledAt (max x.scale y.scale)) (max x.scale y.scale)
      rw [Int.cast_sub, sub_div, unscaledAt_div x (le_max_left _ _),
        unscaledAt_div y (le_max_right _ _)] at h
      exact h

theorem toRat_mul_toRat (x y : Decimal) :
    |x.toRat * y.toRat| = ((x.mantissa * y.mantissa : Nat) : ℚ) / 10 ^ (x.scale + y.scale) := by
  rw [abs_mul, abs_toRat, abs_toRat]
  unfold Magnitude.toRat
  rw [pow_add]
  push_cast
  field_simp

theorem mul_neg_iff_sign {x y : Decimal} (hx : x.mantissa ≠ 0) (hy : y.mantissa ≠ 0) :
    x.toRat * y.toRat < 0 ↔ (x.negative != y.negative) = true := by
  have hxPos : 0 < x.toMagnitude.toRat :=
    lt_of_le_of_ne x.toMagnitude.toRat_nonneg (Ne.symm (mt Magnitude.toRat_eq_zero_iff.mp hx))
  have hyPos : 0 < y.toMagnitude.toRat :=
    lt_of_le_of_ne y.toMagnitude.toRat_nonneg (Ne.symm (mt Magnitude.toRat_eq_zero_iff.mp hy))
  have hProduct := mul_pos hxPos hyPos
  rw [toRat_eq, toRat_eq]
  cases x.negative <;> cases y.negative <;> simp <;> linarith

theorem computes_mul? (x y : Decimal) : Computes (x.toRat * y.toRat) (x.mul? y) := by
  have hFits := Magnitude.fits_fit (x.mantissa * y.mantissa) (x.scale + y.scale)
  rw [← toRat_mul_toRat] at hFits
  unfold mul?
  split
  · rename_i hZero
    have hValue : x.toRat * y.toRat = 0 := by
      rcases hZero with h | h
      · rw [toRat_eq_zero_iff.mpr h, zero_mul]
      · rw [toRat_eq_zero_iff.mpr h, mul_zero]
    rw [hValue]
    exact roundsSigned_zero
  · rename_i hNonzero
    rw [not_or] at hNonzero
    have hSign := mul_neg_iff_sign hNonzero.1 hNonzero.2
    dsimp only
    split
    · rename_i hShort
      split
      · rename_i hScale
        -- a short product with so many places is below half of the last of 28
        have hProduct : x.mantissa * y.mantissa < 2 ^ 32 * 2 ^ 32 :=
          Nat.mul_lt_mul'' hShort.1 hShort.2
        have hSmall : |x.toRat * y.toRat| * 10 ^ 28 ≤ 1 / 2 := by
          have hPow : (10 : ℚ) ^ 48 ≤ 10 ^ (x.scale + y.scale) :=
            pow_le_pow_right₀ (by norm_num) hScale
          have hRat : ((x.mantissa * y.mantissa : Nat) : ℚ) ≤ 2 ^ 64 := by
            exact_mod_cast hProduct.le
          rw [toRat_mul_toRat, div_mul_eq_mul_div, div_le_iff₀ (by positivity)]
          nlinarith
        refine RoundsSigned.mk ?_ (fun _ => by simp) (fun _ => by simp)
        rw [toRat_zero, abs_zero]
        refine ⟨28, le_rfl, ⟨0, by decide, ?_, by norm_num⟩, .inl rfl⟩
        have hNonneg : 0 ≤ |x.toRat * y.toRat| * 10 ^ 28 := by positivity
        constructor
        · rw [Nat.cast_zero, sub_zero, abs_of_nonneg hNonneg]
          exact hSmall
        · intro _
          rfl
      · apply hFits.computes
        intro m
        rw [toRat_signed]
        simp [hSign]
    · apply hFits.computes
      intro m
      rw [toRat_withSign]
      simp [hSign]

end Decimal

end BondingCurve
