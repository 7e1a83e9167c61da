import BondingCurve.Proofs.Decimal.WideGap

/-!
# Powers are monotone

A power follows the power of any strictly larger base, and below exponent 1024 that of any base of
the same value too. Only the wide loop reads more of a decimal than its value.
-/

namespace BondingCurve

namespace Decimal

variable {x y r : Decimal} {n : Nat}

theorem toRat_ofDecimal (h : 0 ≤ x.toRat) : (WideDecimal.ofDecimal x).toRat = x.toRat :=
  (toRat_of_nonneg h).symm

theorem negative_eq_false (h : 0 < x.toRat) : x.negative = false := by
  cases hSign : x.negative with
  | false => rfl
  | true =>
    have := x.toMagnitude.toRat_nonneg
    rw [toRat_eq, hSign, if_pos rfl] at h
    linarith

theorem working_ofDecimal (h : 0 < x.toRat) : (WideDecimal.ofDecimal x).Working where
  negative_eq := negative_eq_false h
  mantissa_lt := x.mantissa_lt.trans (by decide)
  scale_le := x.scale_le.trans (by decide)

theorem scale_pos_of_between {k : Nat} (h : (k : ℚ) < x.toRat) (h' : x.toRat < k + 1) :
    1 ≤ x.scale := by
  by_contra hZero
  have hScale : x.scale = 0 := by omega
  have hValue : x.toRat = x.mantissa := by
    rw [toRat_of_nonneg ((Nat.cast_nonneg k).trans h.le)]
    unfold Magnitude.toRat
    rw [hScale, pow_zero, div_one]
  rw [hValue] at h h'
  have hLow : k < x.mantissa := by exact_mod_cast h
  have hHigh : x.mantissa < k + 1 := by exact_mod_cast h'
  omega

/-- Two decimals are at least a unit of the last place apart. -/
theorem toRat_add_unit_le (h : x.toRat < y.toRat) : x.toRat + 1 / 10 ^ 28 ≤ y.toRat := by
  obtain ⟨j, hj⟩ := onGrid_toRat x.scale_le
  obtain ⟨k, hk⟩ := onGrid_toRat y.scale_le
  have hScaled : x.toRat * 10 ^ 28 < y.toRat * 10 ^ 28 :=
    mul_lt_mul_of_pos_right h (by positivity)
  rw [hj, hk] at hScaled
  have hUnits : j < k := by exact_mod_cast hScaled
  have hUnitsRat : (j : ℚ) + 1 ≤ k := by exact_mod_cast hUnits
  rw [← hj, ← hk] at hUnitsRat
  linarith

theorem pow?_of_ge (hn : 1024 ≤ n) (hx : x.toRat ≠ 0) (hOne : x.toRat ≠ 1) :
    x.pow? n = (squareAndMultiply WideDecimal.mul? (.ofDecimal 1) (.ofDecimal x) n).bind
      fun w => w.toDecimal?.map normalize := by
  unfold pow?
  rw [if_neg (by omega), if_neg (mt toRat_eq_zero_iff.mpr hx),
    if_neg (by rwa [equiv_iff_toRat_eq, toRat_one]), if_neg (by omega), if_neg (by omega),
    if_neg (by omega)]

theorem pow?_eq_some_of_ge (hn : 1024 ≤ n) (hx : x.toRat ≠ 0) (hOne : x.toRat ≠ 1)
    (h : x.pow? n = some r) :
    ∃ w d, squareAndMultiply WideDecimal.mul? (.ofDecimal 1) (.ofDecimal x) n = some w ∧
      w.toDecimal? = some d ∧ r.toRat = d.toRat := by
  rw [pow?_of_ge hn hx hOne] at h
  obtain ⟨w, hRun, h⟩ := Option.bind_eq_some_iff.mp h
  obtain ⟨d, hd, rfl⟩ := Option.map_eq_some_iff.mp h
  exact ⟨w, d, hRun, hd, toRat_normalize d⟩

theorem pow?_of_toRat_eq_zero (hn : n ≠ 0) (h : x.toRat = 0) : x.pow? n = some 0 := by
  unfold pow?
  rw [if_neg hn, if_pos (toRat_eq_zero_iff.mp h)]

theorem pow?_of_toRat_eq_one (hn : n ≠ 0) (h : x.toRat = 1) : x.pow? n = some 1 := by
  have hNonzero : x.mantissa ≠ 0 := by
    intro hZero
    rw [toRat_eq_zero_iff.mpr hZero] at h
    exact zero_ne_one h
  unfold pow?
  rw [if_neg hn, if_neg hNonzero, if_pos (by rw [equiv_iff_toRat_eq, h, toRat_one])]

/-- Up to one no power overflows or leaves that range. -/
theorem exists_pow?_of_le_one (hn : 1024 ≤ n) (h : 0 ≤ x.toRat) (hLe : x.toRat ≤ 1) :
    ∃ r, x.pow? n = some r ∧ 0 ≤ r.toRat ∧ r.toRat ≤ 1 := by
  by_cases hZero : x.toRat = 0
  · exact ⟨0, pow?_of_toRat_eq_zero (by omega) hZero, by simp, by simp⟩
  by_cases hOne : x.toRat = 1
  · exact ⟨1, pow?_of_toRat_eq_one (by omega) hOne, by simp, by simp⟩
  have hPos : 0 < x.toRat := lt_of_le_of_ne h (Ne.symm hZero)
  have hBase : (WideDecimal.ofDecimal x).toRat ≤ 1 := by rwa [toRat_ofDecimal h]
  have hAcc : (WideDecimal.ofDecimal 1).toRat ≤ 1 := by rw [toRat_ofDecimal (by simp), toRat_one]
  obtain ⟨w, hRun, hWorking, hwOne⟩ := WideDecimal.exists_run_of_le_one
    (working_ofDecimal (by simp)) (working_ofDecimal hPos) hAcc hBase (n := n) (by omega)
  obtain ⟨d, hd⟩ := WideDecimal.exists_toDecimal?_of_le_one hWorking hwOne
  have hdOne := WideDecimal.le_natCast_of_toDecimal? (N := 1) hWorking hd (by exact_mod_cast hwOne)
  refine ⟨d.normalize, ?_, ?_, ?_⟩
  · rw [pow?_of_ge hn hZero hOne, hRun, Option.bind_some, hd, Option.map_some]
  · rw [toRat_normalize]
    exact WideDecimal.nonneg_of_toDecimal? hWorking hd
  · rw [toRat_normalize]
    exact_mod_cast hdOne

theorem natCast_pow_le_of_pow? {b : Nat} (hn : 1024 ≤ n) (hOne : 1 < x.toRat) (hb : (b : ℚ) ≤ x.toRat)
    {w : WideDecimal}
    (h : squareAndMultiply WideDecimal.mul? (.ofDecimal 1) (.ofDecimal x) n = some w) :
    WideDecimal.Working w ∧ ((b ^ n : Nat) : ℚ) ≤ w.toRat := by
  have hPos : 0 < x.toRat := by linarith
  have hRun := WideDecimal.le_of_run (a := 1) (b := b) (working_ofDecimal (by simp))
    (working_ofDecimal hPos) (by rw [toRat_ofDecimal (by simp)]; simp)
    (by rwa [toRat_ofDecimal hPos.le]) (by omega) h
  rwa [Nat.one_mul] at hRun

theorem one_le_of_pow? (hn : 1024 ≤ n) (hLe : 1 ≤ x.toRat) (h : x.pow? n = some r) :
    1 ≤ r.toRat := by
  rcases eq_or_lt_of_le hLe with hEq | hOne
  · rw [pow?_of_toRat_eq_one (by omega) hEq.symm] at h
    cases h
    simp
  · obtain ⟨w, d, hRun, hd, hValue⟩ := pow?_eq_some_of_ge hn (by linarith) hOne.ne' h
    obtain ⟨hWorking, hBound⟩ := natCast_pow_le_of_pow? (b := 1) hn hOne (by simpa using hLe) hRun
    rw [Nat.one_pow] at hBound
    have := WideDecimal.natCast_le_of_toDecimal? hWorking hd hBound
    rw [hValue]
    exact_mod_cast this

theorem log2_range (hn : 1024 ≤ n) (hWord : n < 2 ^ 64) : 10 ≤ n.log2 ∧ n.log2 < 64 :=
  ⟨(Nat.le_log2 (by omega)).mpr hn, (Nat.log2_lt (by omega)).mpr hWord⟩

theorem follows_pow?_below_one (hn : 1024 ≤ n) (hWord : n < 2 ^ 64) (hx : 0 < x.toRat)
    (h : x.toRat < y.toRat) (hy : y.toRat < 1) : Follows Below (x.pow? n) (y.pow? n) := by
  obtain ⟨hLevels, hLevels'⟩ := log2_range hn hWord
  have hyPos : 0 < y.toRat := hx.trans h
  have hBases : WideDecimal.BasesBelow 0 (.ofDecimal x) (.ofDecimal y) := by
    refine ⟨⟨working_ofDecimal hx, working_ofDecimal hyPos⟩, ⟨?_, ?_⟩, ?_, ?_⟩
    · exact .inr (.inr (.inr (scale_pos_of_between (k := 0) (by simpa using hx) (by push_cast; linarith))))
    · exact .inr (.inr (.inr (scale_pos_of_between (k := 0) (by simpa using hyPos) (by push_cast; linarith))))
    · rw [toRat_ofDecimal hx.le, toRat_ofDecimal hyPos.le]
      exact ⟨by linarith, hy.le⟩
    · rw [toRat_ofDecimal hx.le, toRat_ofDecimal hyPos.le]
      have hUnit := toRat_add_unit_le h
      have hScaled := mul_le_mul_of_nonneg_left (by linarith : x.toRat ≤ 1)
        (by norm_num : (0 : ℚ) ≤ 4 / 10 ^ 29 + 10 * (1 / 10 ^ 57))
      simp only [WideDecimal.gap, WideDecimal.growth, WideDecimal.unit, Nat.zero_min, pow_zero, one_mul]
      linarith
  have hAccs : WideDecimal.AccsBelow 0 (.ofDecimal 1) (.ofDecimal 1) := by
    have hOne : (WideDecimal.ofDecimal 1).toRat = 1 := by rw [toRat_ofDecimal (by simp), toRat_one]
    exact ⟨⟨working_ofDecimal (by simp), working_ofDecimal (by simp)⟩, ⟨hOne.le, hOne.le⟩, by simp⟩
  have hRun := follows_squareAndMultiply (A := WideDecimal.AccsBelow) (B := WideDecimal.BasesBelow)
    (Z := WideDecimal.PowersBelow) (fun _ _ _ hA => WideDecimal.AccsBelow.keep hA)
    (fun _ _ _ _ _ hA hB => WideDecimal.AccsBelow.mul hA hB)
    (fun _ _ _ hB => WideDecimal.BasesBelow.square hB)
    (fun _ _ _ _ _ hA hB => WideDecimal.AccsBelow.last hA hB) (n := n) (by omega) hAccs hBases
  rw [Nat.zero_add] at hRun
  rw [pow?_of_ge hn hx.ne' (by linarith), pow?_of_ge hn hyPos.ne' hy.ne]
  refine hRun.bind fun w w' hw => (hw.narrow hLevels hLevels').map fun d d' hd => ?_
  exact ⟨by rw [toRat_normalize]; exact hd.1, by rw [toRat_normalize, toRat_normalize]; exact hd.2⟩

theorem natCast_lt_of_toDecimal? {w : WideDecimal} {d : Decimal} {N : Nat} (hWorking : w.Working)
    (h : w.toDecimal? = some d) (hN : (N : ℚ) ≤ w.toRat) : N < 2 ^ 96 := by
  have hNarrow := WideDecimal.natCast_le_of_toDecimal? hWorking h hN
  have hLess := hNarrow.trans_lt ((le_abs_self _).trans_lt (abs_toRat d ▸ d.toMagnitude.toRat_lt))
  exact_mod_cast hLess

theorem lt_two_of_pow? (hn : 1024 ≤ n) (h : x.pow? n = some r) : x.toRat < 2 := by
  by_contra hTwo
  have hx : 2 ≤ x.toRat := not_lt.mp hTwo
  obtain ⟨w, d, hRun, hd, _⟩ := pow?_eq_some_of_ge hn (by linarith) (by linarith) h
  obtain ⟨hWorking, hBound⟩ := natCast_pow_le_of_pow? (b := 2) hn (by linarith) (by exact_mod_cast hx) hRun
  have hLarge : 2 ^ 96 ≤ 2 ^ n := Nat.pow_le_pow_right (by decide) (by omega)
  have := natCast_lt_of_toDecimal? hWorking hd hBound
  omega

theorem follows_pow?_above_one (hn : 1024 ≤ n) (hx : 1 < x.toRat) (h : x.toRat < y.toRat) :
    Follows Below (x.pow? n) (y.pow? n) := by
  intro r hr
  have hy : 1 < y.toRat := hx.trans h
  have hLevels : 10 ≤ n.log2 := (Nat.le_log2 (by omega)).mpr hn
  obtain ⟨w', d', hRun', hd', hValue'⟩ := pow?_eq_some_of_ge hn (by linarith) hy.ne' hr
  have hyTwo := lt_two_of_pow? hn hr
  have hWorking' := (natCast_pow_le_of_pow? (b := 1) hn hy (by simpa using hy.le) hRun').1
  have hOne : (WideDecimal.ofDecimal 1).toRat = 1 := by rw [toRat_ofDecimal (by simp), toRat_one]
  have hShort : w'.toRat < 2 ^ 96 := by
    by_contra hLong
    have := natCast_lt_of_toDecimal? (N := 2 ^ 96) hWorking' hd' (by push_cast; exact not_lt.mp hLong)
    omega
  have hShortRun := WideDecimal.run_shortMul? (working_ofDecimal (by simp))
    (working_ofDecimal (by linarith)) hOne.ge (by rw [toRat_ofDecimal (by linarith)]; exact hy.le)
    (by omega) hRun' hShort
  have hBases : WideDecimal.BasesAbove 0 (.ofDecimal x) (.ofDecimal y) := by
    refine ⟨⟨working_ofDecimal (by linarith), working_ofDecimal (by linarith)⟩, ⟨?_, ?_⟩, ?_, ?_⟩
    · exact .inr (.inr (.inr (scale_pos_of_between (k := 1) (by simpa using hx) (by push_cast; linarith))))
    · exact .inr (.inr (.inr (scale_pos_of_between (k := 1) (by simpa using hy) (by push_cast; linarith))))
    · rw [toRat_ofDecimal (by linarith), toRat_ofDecimal (by linarith)]
      exact ⟨hx.le, hy.le⟩
    · rw [toRat_ofDecimal (by linarith), toRat_ofDecimal (by linarith)]
      have hUnit := toRat_add_unit_le h
      have hScaled := mul_le_mul_of_nonneg_left (by linarith : x.toRat ≤ 2)
        (by norm_num : (0 : ℚ) ≤ 4 / 10 ^ 29 + 10 * (1 / 10 ^ 56))
      simp only [WideDecimal.gap, WideDecimal.growth, WideDecimal.share, Nat.zero_min, pow_zero, one_mul]
      linarith
  have hAccs : WideDecimal.AccsAbove (.ofDecimal 1) (.ofDecimal 1) :=
    ⟨⟨working_ofDecimal (by simp), working_ofDecimal (by simp)⟩, ⟨hOne.ge, hOne.ge⟩, le_rfl⟩
  have hRun := follows_squareAndMultiply (A := fun _ => WideDecimal.AccsAbove)
    (B := WideDecimal.BasesAbove) (Z := WideDecimal.PowersAbove) (fun _ _ _ hA => hA)
    (fun _ _ _ _ _ hA hB => (WideDecimal.AccsAbove.last hA hB).imp fun _ _ hw => hw.accs)
    (fun _ _ _ hB => WideDecimal.BasesAbove.square hB)
    (fun _ _ _ _ _ hA hB => WideDecimal.AccsAbove.last hA hB) (n := n) (by omega) hAccs hBases
  obtain ⟨w, hw, hPowers⟩ := hRun w' hShortRun
  rw [Nat.zero_add] at hPowers
  obtain ⟨d, hd, hBelow⟩ := hPowers.narrow hLevels d' hd'
  refine ⟨d.normalize, ?_, ?_, ?_⟩
  · rw [pow?_of_ge hn (by linarith) hx.ne', hw, Option.bind_some, hd, Option.map_some]
  · rw [toRat_normalize]
    exact hBelow.1
  · rw [toRat_normalize, hValue']
    exact hBelow.2

theorem follows_pow?_of_toRat_lt (hn : 1024 ≤ n) (hWord : n < 2 ^ 64) (hx : 0 ≤ x.toRat)
    (h : x.toRat < y.toRat) : Follows Below (x.pow? n) (y.pow? n) := by
  rcases lt_or_ge y.toRat 1 with hyOne | hyOne
  · rcases eq_or_lt_of_le hx with hZero | hPos
    · intro r hr
      obtain ⟨s, hs, hNonneg, _⟩ := exists_pow?_of_le_one hn (hx.trans h.le) hyOne.le
      rw [hr] at hs
      cases hs
      exact ⟨0, pow?_of_toRat_eq_zero (by omega) hZero.symm, by simp, by simpa using hNonneg⟩
    · exact follows_pow?_below_one hn hWord hPos h hyOne
  · rcases le_or_gt x.toRat 1 with hxOne | hxOne
    · intro r hr
      obtain ⟨s, hs, hNonneg, hsOne⟩ := exists_pow?_of_le_one hn hx hxOne
      exact ⟨s, hs, hNonneg, hsOne.trans (one_le_of_pow? hn hyOne hr)⟩
    · exact follows_pow?_above_one hn hxOne h

/-- Smaller in value, zero, or the same decimal as written; values alone decide below exponent
1024. -/
def Under (n : Nat) (x y : Decimal) : Prop :=
  Below x y ∧ (n < 1024 ∨ x.toRat < y.toRat ∨ x = y ∨ x.toRat = 0)

theorem pow?_nonneg (hx : 0 ≤ x.toRat) (h : x.pow? n = some r) :
    0 ≤ r.toRat := by
  rcases Nat.lt_or_ge n 1024 with hSmall | hLarge
  · obtain ⟨s, hs, hNonneg, _⟩ := follows_pow?_of_lt hSmall (⟨hx, le_rfl⟩ : Below x x) r h
    rw [h] at hs
    cases hs
    exact hNonneg
  · rcases le_or_gt x.toRat 1 with hOne | hOne
    · obtain ⟨s, hs, hNonneg, _⟩ := exists_pow?_of_le_one hLarge hx hOne
      rw [h] at hs
      cases hs
      exact hNonneg
    · have := one_le_of_pow? hLarge hOne.le h
      linarith

theorem follows_pow? (hWord : n < 2 ^ 64) (h : Under n x y) : Follows Below (x.pow? n) (y.pow? n) := by
  obtain ⟨hBelow, hCase⟩ := h
  rcases Nat.lt_or_ge n 1024 with hSmall | hLarge
  · exact follows_pow?_of_lt hSmall hBelow
  · rcases hCase with hSmall | hLess | rfl | hZero
    · omega
    · exact follows_pow?_of_toRat_lt hLarge hWord hBelow.1 hLess
    · intro r hr
      exact ⟨r, hr, pow?_nonneg hBelow.1 hr, le_rfl⟩
    · intro r hr
      exact ⟨0, pow?_of_toRat_eq_zero (by omega) hZero, by simp,
        by simpa using pow?_nonneg (hBelow.1.trans hBelow.2) hr⟩

end Decimal

end BondingCurve
