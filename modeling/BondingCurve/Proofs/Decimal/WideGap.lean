import BondingCurve.Proofs.Decimal.WideRun
import Mathlib.Tactic.LinearCombination

/-!
# The gap between two runs

From exponent 1024 on the rounding of a product depends on how its factors are written. Still, a
strictly smaller base never has a larger power. Two decimals differ by at least one unit of the
twenty-eighth place; relative to the smaller base that gap doubles with every squaring, which is
more than the working precision can lose. Below one the loss is counted in units of the
fifty-seventh place, above one as a share of the value.
-/

namespace BondingCurve

namespace WideDecimal

variable {x y z : WideDecimal}

/-- How often the relative gap has doubled by level `k`; thirteen doublings are all that is needed. -/
def growth (k : Nat) : ℚ := 2 ^ min k 13

theorem one_le_growth (k : Nat) : 1 ≤ growth k := one_le_pow₀ (by norm_num)

theorem growth_le (k : Nat) : growth k ≤ 8192 := by
  have h : growth k ≤ 2 ^ 13 := pow_le_pow_right₀ (by norm_num) (min_le_right _ _)
  norm_num at h
  exact h

theorem growth_succ_le (k : Nat) : growth (k + 1) ≤ 2 * growth k := by
  unfold growth
  rw [← pow_succ']
  exact pow_le_pow_right₀ (by norm_num) (by omega)

/-- The relative gap between the bases at level `k`. -/
def gap (k : Nat) : ℚ := growth k * (4 / 10 ^ 29)

theorem gap_nonneg (k : Nat) : 0 ≤ gap k := by
  have := one_le_growth k
  unfold gap
  positivity

theorem gap_small (k : Nat) : gap k ≤ 1 / 100 := by
  have := growth_le k
  unfold gap
  linarith

theorem gap_succ_le (k : Nat) : gap (k + 1) ≤ 2 * gap k := by
  have := growth_succ_le k
  unfold gap
  linarith

section BelowOne

variable {a a' b b' z z' g s u : ℚ}

/-- The gap doubles, and the extra `10 u` outgrows what a rounding takes from it. -/
theorem square_gap (hu : 0 < u) (huSmall : u ≤ 1 / 1000) (hg : 0 ≤ g) (hgSmall : g ≤ 1 / 100)
    (hb : 0 ≤ b) (h : b * (1 + g + 10 * u) ≤ b' + 4 * u) (hz : z ≤ b * b + u)
    (hz' : b' * b' ≤ z' + u) : z * (1 + 2 * g + 10 * u) ≤ z' + 4 * u := by
  have hFactor : 1 + 2 * g + 10 * u ≤ 103 / 100 := by linarith
  have hRound : z * (1 + 2 * g + 10 * u) ≤ b * b * (1 + 2 * g + 10 * u) + 103 / 100 * u := by
    have hScaled := mul_le_mul_of_nonneg_right hz (by linarith : 0 ≤ 1 + 2 * g + 10 * u)
    have hUnit := mul_le_mul_of_nonneg_left hFactor hu.le
    linarith
  have hSquare : b * b * (1 + 2 * g + 10 * u) ≤ (b * (1 + g + 10 * u)) ^ 2 - 10 * u * (b * b) := by
    have hRest : 0 ≤ b * b * (g + 10 * u) ^ 2 := by positivity
    linear_combination hRest
  rcases le_total (b * (1 + g + 10 * u)) b' with hLe | hLe
  · have hSquares : (b * (1 + g + 10 * u)) ^ 2 ≤ b' * b' := by
      rw [← pow_two]
      exact pow_le_pow_left₀ (by positivity) hLe 2
    have hExtra : 0 ≤ 10 * u * (b * b) := by positivity
    linarith
  · have hSquares : (b * (1 + g + 10 * u)) ^ 2 ≤ b' * b' + 8 * u * b' + 16 * u * u := by
      have := pow_le_pow_left₀ (by positivity) h 2
      linear_combination this
    have hNear : b' ≤ 102 / 100 * b := by
      have := mul_le_mul_of_nonneg_left (by linarith : 1 + g + 10 * u ≤ 102 / 100) hb
      linarith
    have hLoss : 8 * b' - 10 * (b * b) ≤ 17 / 10 := by
      linarith [sq_nonneg (b - 51 / 125)]
    have hLossUnits := mul_le_mul_of_nonneg_left hLoss hu.le
    have hTiny := mul_le_mul_of_nonneg_left huSmall hu.le
    linarith

/-- The accumulators differ by at most seven units a level. -/
theorem product_slack (hu : 0 < u) (hg : 0 ≤ g) (hb : 0 ≤ b) (hbOne : b ≤ 1) (ha' : 0 ≤ a')
    (haOne' : a' ≤ 1) (hs : 0 ≤ s) (h : b * (1 + g + 10 * u) ≤ b' + 4 * u) (ha : a ≤ a' + s)
    (hz : z ≤ a * b + u) (hz' : a' * b' ≤ z' + u) : z ≤ z' + (s + 7 * u) := by
  have hGap : 0 ≤ b * (g + 10 * u) := by positivity
  have hFirst := mul_le_mul_of_nonneg_right ha hb
  have hSlack := mul_le_mul_of_nonneg_left hbOne hs
  have hSecond := mul_le_mul_of_nonneg_left (by linarith : b ≤ b' + 4 * u) ha'
  have hUnits := mul_le_mul_of_nonneg_left haOne' hu.le
  linarith

/-- The last product keeps the gap of the base. -/
theorem product_gap (hu : 0 < u) (huSmall : u ≤ 1 / 1000) (hg : 0 ≤ g) (hgSmall : g ≤ 1 / 100)
    (hb : 0 ≤ b) (ha : 0 ≤ a) (haOne : a ≤ 1) (hb' : 0 ≤ b') (hbOne' : b' ≤ 1) (hs : 0 ≤ s)
    (h : b * (1 + g + 10 * u) ≤ b' + 4 * u) (hSlack : a ≤ a' + s) (hz : z ≤ a * b + u)
    (hz' : a' * b' ≤ z' + u) : z * (1 + g) ≤ z' + (s + 7 * u) := by
  have hExtra : 0 ≤ a * (b * (10 * u)) := by positivity
  have hRound := mul_le_mul_of_nonneg_right hz (by linarith : 0 ≤ 1 + g)
  have hUnit := mul_le_mul_of_nonneg_left (by linarith : 1 + g ≤ 2) hu.le
  have hFirst := mul_le_mul_of_nonneg_left h ha
  have hSecond := mul_le_mul_of_nonneg_right hSlack hb'
  have hThird := mul_le_mul_of_nonneg_left hbOne' hs
  have hUnits := mul_le_mul_of_nonneg_right haOne hu.le
  linarith

end BelowOne

section AboveOne

variable {a a' b b' z z' g e : ℚ}

theorem square_ratio (he : 0 < e) (heSmall : e ≤ 1 / 1000) (hg : 0 ≤ g) (hgSmall : g ≤ 1 / 100)
    (hb : 0 ≤ b) (hz : 0 ≤ z) (h : b * (1 + g + 10 * e) ≤ b') (hLow : z * (1 - e) ≤ b * b)
    (hHigh : b' * b' ≤ z' * (1 + e)) : z * (1 + 2 * g + 10 * e) ≤ z' := by
  have hSquares : b * b * (1 + g + 10 * e) ^ 2 ≤ b' * b' := by
    have := pow_le_pow_left₀ (by positivity) h 2
    linear_combination this
  have hGrowth : z * (1 - e) * (1 + g + 10 * e) ^ 2 ≤ z' * (1 + e) :=
    (mul_le_mul_of_nonneg_right hLow (by positivity)).trans (hSquares.trans hHigh)
  have hFactor : (1 + 2 * g + 10 * e) * (1 + e) ≤ (1 - e) * (1 + g + 10 * e) ^ 2 := by
    have hLinear : 1 + 2 * g + 20 * e ≤ (1 + g + 10 * e) ^ 2 := by
      linarith [sq_nonneg (g + 10 * e)]
    have hScaled := mul_le_mul_of_nonneg_left hLinear (by linarith : 0 ≤ 1 - e)
    have hCross := mul_le_mul_of_nonneg_left hgSmall he.le
    have hTiny := mul_le_mul_of_nonneg_left heSmall he.le
    linarith
  have hScaled := mul_le_mul_of_nonneg_left hFactor hz
  exact le_of_mul_le_mul_right (by linarith) (by linarith : 0 < 1 + e)

theorem product_ratio (he : 0 < e) (heSmall : e ≤ 1 / 1000) (hg : 0 ≤ g) (hgSmall : g ≤ 1 / 100)
    (ha : 0 ≤ a) (hb : 0 ≤ b) (hz : 0 ≤ z) (haLe : a ≤ a') (h : b * (1 + g + 10 * e) ≤ b')
    (hLow : z * (1 - e) ≤ a * b) (hHigh : a' * b' ≤ z' * (1 + e)) : z * (1 + g) ≤ z' := by
  have hProducts : a * b * (1 + g + 10 * e) ≤ a' * b' := by
    have := mul_le_mul haLe h (by positivity) (ha.trans haLe)
    linarith
  have hGrowth : z * (1 - e) * (1 + g + 10 * e) ≤ z' * (1 + e) :=
    (mul_le_mul_of_nonneg_right hLow (by positivity)).trans (hProducts.trans hHigh)
  have hFactor : (1 + g) * (1 + e) ≤ (1 - e) * (1 + g + 10 * e) := by
    have hCross := mul_le_mul_of_nonneg_left hgSmall he.le
    have hTiny := mul_le_mul_of_nonneg_left heSmall he.le
    linarith
  have hScaled := mul_le_mul_of_nonneg_left hFactor hz
  exact le_of_mul_le_mul_right (by linarith) (by linarith : 0 < 1 + e)

end AboveOne

section Below

/-- A unit of the last working place. -/
def unit : ℚ := 1 / 10 ^ 57

theorem unit_pos : 0 < unit := by
  unfold unit
  norm_num

theorem unit_small : unit ≤ 1 / 1000 := by
  unfold unit
  norm_num

/-- Two bases below one and their gap, after `k` squarings. -/
structure BasesBelow (k : Nat) (b b' : WideDecimal) : Prop where
  working : Working b ∧ Working b'
  ripe : Ripe k b ∧ Ripe k b'
  le_one : b.toRat ≤ 1 ∧ b'.toRat ≤ 1
  gap_le : b.toRat * (1 + gap k + 10 * unit) ≤ b'.toRat + 4 * unit

/-- The accumulators that go with them. -/
structure AccsBelow (k : Nat) (a a' : WideDecimal) : Prop where
  working : Working a ∧ Working a'
  le_one : a.toRat ≤ 1 ∧ a'.toRat ≤ 1
  le_add : a.toRat ≤ a'.toRat + 7 * k * unit

structure PowersBelow (k : Nat) (r r' : WideDecimal) : Prop where
  working : Working r ∧ Working r'
  full : 6 ≤ k → Full r ∧ Full r'
  le_one : r.toRat ≤ 1 ∧ r'.toRat ≤ 1
  gap_le : r.toRat * (1 + gap k) ≤ r'.toRat + 7 * (k + 1) * unit

theorem follows_product_of_le_one {x y x' y' : WideDecimal} (hx : Working x ∧ Working x')
    (hy : Working y ∧ Working y') (hxOne : x.toRat ≤ 1 ∧ x'.toRat ≤ 1)
    (hyOne : y.toRat ≤ 1 ∧ y'.toRat ≤ 1) :
    Follows (fun z z' => (IsProduct x y z ∧ IsProduct x' y' z') ∧ (z.toRat ≤ 1 ∧ z'.toRat ≤ 1) ∧
      z.toRat ≤ x.toRat * y.toRat + unit ∧ x'.toRat * y'.toRat ≤ z'.toRat + unit)
      (x.mul? y) (x'.mul? y') := by
  intro z' hz'
  have hLe : x.toRat * y.toRat ≤ 1 := mul_le_one₀ hxOne.1 (toRat_nonneg y) hyOne.1
  have hLe' : x'.toRat * y'.toRat ≤ 1 := mul_le_one₀ hxOne.2 (toRat_nonneg y') hyOne.2
  obtain ⟨z, hz⟩ := exists_mul? (hLe.trans_lt (by norm_num))
  have hProduct := isProduct_of_mul? hx.1 hy.1 hz
  have hProduct' := isProduct_of_mul? hx.2 hy.2 hz'
  have hNear := abs_le.mp (hProduct.near_of_le_one hLe)
  have hNear' := abs_le.mp (hProduct'.near_of_le_one hLe')
  refine ⟨z, hz, ⟨hProduct, hProduct'⟩, ⟨hProduct.le_one hLe, hProduct'.le_one hLe'⟩, ?_, ?_⟩
  · unfold unit
    linarith
  · unfold unit
    linarith

theorem BasesBelow.square {k : Nat} {b b' : WideDecimal} (h : BasesBelow k b b') :
    Follows (BasesBelow (k + 1)) (b.mul? b) (b'.mul? b') := by
  refine (follows_product_of_le_one h.working h.working h.le_one h.le_one).imp ?_
  rintro z z' ⟨⟨hProduct, hProduct'⟩, hOne, hz, hz'⟩
  have hSquare := square_gap unit_pos unit_small (gap_nonneg k) (gap_small k) (toRat_nonneg b)
    h.gap_le hz hz'
  refine ⟨⟨hProduct.working, hProduct'.working⟩, ⟨hProduct.ripe h.ripe.1, hProduct'.ripe h.ripe.2⟩,
    hOne, le_trans ?_ hSquare⟩
  apply mul_le_mul_of_nonneg_left _ (toRat_nonneg z)
  have := gap_succ_le k
  linarith

theorem AccsBelow.keep {k : Nat} {a a' : WideDecimal} (h : AccsBelow k a a') :
    AccsBelow (k + 1) a a' where
  working := h.working
  le_one := h.le_one
  le_add := by
    have := h.le_add
    have := unit_pos
    push_cast
    linarith

theorem AccsBelow.mul {k : Nat} {a a' b b' : WideDecimal} (hA : AccsBelow k a a')
    (hB : BasesBelow k b b') : Follows (AccsBelow (k + 1)) (a.mul? b) (a'.mul? b') := by
  refine (follows_product_of_le_one hA.working hB.working hA.le_one hB.le_one).imp ?_
  rintro z z' ⟨⟨hProduct, hProduct'⟩, hOne, hz, hz'⟩
  have hSlack := product_slack unit_pos (gap_nonneg k) (toRat_nonneg b) hB.le_one.1 (toRat_nonneg a')
    hA.le_one.2 (by have := unit_pos; positivity) hB.gap_le hA.le_add hz hz'
  refine ⟨⟨hProduct.working, hProduct'.working⟩, hOne, ?_⟩
  push_cast
  linarith

theorem AccsBelow.last {k : Nat} {a a' b b' : WideDecimal} (hA : AccsBelow k a a')
    (hB : BasesBelow k b b') : Follows (PowersBelow k) (a.mul? b) (a'.mul? b') := by
  refine (follows_product_of_le_one hA.working hB.working hA.le_one hB.le_one).imp ?_
  rintro z z' ⟨⟨hProduct, hProduct'⟩, hOne, hz, hz'⟩
  have hGap := product_gap unit_pos unit_small (gap_nonneg k) (gap_small k) (toRat_nonneg b)
    (toRat_nonneg a) hA.le_one.1 (toRat_nonneg b') hB.le_one.2 (by have := unit_pos; positivity)
    hB.gap_le hA.le_add hz hz'
  refine ⟨⟨hProduct.working, hProduct'.working⟩, fun hk => ⟨hProduct.full hB.working.1 hB.ripe.1 hk,
    hProduct'.full hB.working.2 hB.ripe.2 hk⟩, hOne, ?_⟩
  linarith

/-- How twenty-nine digits go, twenty-seven of them already gone from `w`: the last chunk is of two
digits and rounds up from two on. -/
def lastChunk (w : Nat) : Nat :=
  if w % 100 > 1 ∨ (w % 100 = 1 ∧ w / 100 % 2 = 1) then w / 100 + 1 else w / 100

theorem lastChunk_mono {w w' : Nat} (h : w ≤ w') : lastChunk w ≤ lastChunk w' := by
  unfold lastChunk
  split <;> split <;> omega

theorem lastChunk_eq_zero {w : Nat} (h : w < 2) : lastChunk w = 0 := by
  unfold lastChunk
  rw [if_neg (by omega)]
  omega

theorem Shortening.run_chunk {top m s d count j : Nat} (hScale : s ≠ 0) (hCount : count ≠ 0)
    (hj : j = min (min (max count 1) 9) s) :
    run top ⟨m, s, d⟩ count = run top ⟨m / 10 ^ j, s - j, m % 10 ^ j⟩ (count - j) := by
  rw [run, dif_neg hScale, if_neg (fun h => hCount h.1)]
  subst hj
  rfl

theorem shorten_last {m : Nat} (hm : m ≤ 10 ^ 57) :
    shorten 2 28 m 57 = some (lastChunk (m / 10 ^ 27), 28) := by
  have hCount : excessDigits 2 28 m 57 = 29 := by
    unfold excessDigits
    dsimp only
    split
    · rfl
    · rename_i hLong
      have hNonzero : m ≠ 0 := by
        rintro rfl
        exact hLong (by decide)
      have hBits : m.log2 < 190 := (Nat.log2_lt hNonzero).mpr (by omega)
      omega
  have hRun : Shortening.run 2 ⟨m, 57, 0⟩ 29 = some ⟨m / 10 ^ 29, 28, m / 10 ^ 27 % 100⟩ := by
    rw [Shortening.run_chunk (j := 9) (by decide) (by decide) (by decide),
      Shortening.run_chunk (j := 9) (by decide) (by decide) (by decide),
      Shortening.run_chunk (j := 9) (by decide) (by decide) (by decide),
      Shortening.run_chunk (j := 2) (by decide) (by decide) (by decide)]
    simp only [Nat.div_div_eq_div_mul, ← pow_add]
    have hFits : topWord (m / 10 ^ 29) ≤ 2 := topWord_le_iff.mpr (by omega)
    change Shortening.run 2 ⟨m / 10 ^ 29, 28, m / 10 ^ 27 % 100⟩ 0 = _
    rw [Shortening.run, dif_neg (show (28 : Nat) ≠ 0 by decide), if_pos ⟨rfl, hFits⟩]
  have hWhole : m / 10 ^ 29 = m / 10 ^ 27 / 100 := by omega
  have hFits : topWord (m / 10 ^ 27 / 100 + 1) ≤ 2 := topWord_le_iff.mpr (by omega)
  have hTop : topWord (lastChunk (m / 10 ^ 27)) ≤ 2 := by
    rw [topWord_le_iff] at hFits ⊢
    unfold lastChunk
    split <;> omega
  have hRound : Shortening.round 2 ⟨m / 10 ^ 29, 28, m / 10 ^ 27 % 100⟩
      = some (lastChunk (m / 10 ^ 27), 28) := by
    unfold Shortening.round lastChunk
    simp only [hWhole, if_pos hFits]
    split <;> rfl
  unfold shorten
  rw [hCount]
  dsimp only
  rw [if_neg (by decide), if_neg (by decide), hRun, Option.bind_eq_bind, Option.bind_some, hRound,
    Option.bind_eq_bind, Option.bind_some, if_pos hTop]

theorem exists_toDecimal?_last (hx : Working x) (hOne : x.toRat ≤ 1) (hScale : x.scale = 57) :
    ∃ d, x.toDecimal? = some d ∧ d.toRat = lastChunk (x.mantissa / 10 ^ 27) / 10 ^ 28 := by
  have hUnits : x.mantissa ≤ 10 ^ 57 := by
    unfold toRat at hOne
    rw [div_le_one (by positivity), hScale] at hOne
    exact_mod_cast hOne
  have hNarrowed : x.narrowed = some (lastChunk (x.mantissa / 10 ^ 27), 28) := by
    unfold narrowed
    rw [if_neg (by omega), hScale, shorten_last hUnits]
  exact exists_toDecimal? hx hNarrowed

theorem Full.scale_eq_of_le_one (h : Full x) (hx : Working x) (hOne : x.toRat ≤ 1) :
    x.mantissa = 0 ∨ x.scale = 57 := by
  rcases h with hZero | hKept
  · exact .inl hZero
  · exact .inr (WideDecimal.scale_eq_of_le_one hx hOne hKept)

theorem toRat_eq_zero (h : x.mantissa = 0) : x.toRat = 0 := by
  unfold toRat
  rw [h, Nat.cast_zero, zero_div]

/-- From two units of the last chunk on, the gap is more than all the levels can lose. -/
theorem slack_le_gap {k : Nat} (hk : 10 ≤ k) (hk' : k < 64) :
    7 * ((k : ℚ) + 1) ≤ 2 * 10 ^ 27 * gap k := by
  have hLevels : (k : ℚ) + 1 ≤ 64 := by exact_mod_cast hk'
  unfold gap growth
  obtain rfl | rfl | rfl | hTop : k = 10 ∨ k = 11 ∨ k = 12 ∨ 13 ≤ k := by omega
  · norm_num
  · norm_num
  · norm_num
  · rw [min_eq_right hTop]
    linarith

theorem PowersBelow.narrow {k : Nat} {r r' : WideDecimal} (h : PowersBelow k r r') (hk : 10 ≤ k)
    (hk' : k < 64) : Follows Decimal.Below r.toDecimal? r'.toDecimal? := by
  intro y hy
  have hyNonneg := nonneg_of_toDecimal? h.working.2 hy
  obtain ⟨hFull, hFull'⟩ := h.full (by omega)
  have hGap := h.gap_le
  rcases hFull.scale_eq_of_le_one h.working.1 h.le_one.1 with hZero | hScale
  · obtain ⟨d, hd⟩ := exists_toDecimal?_of_le_one h.working.1 h.le_one.1
    have hdLe := le_natCast_of_toDecimal? (N := 0) h.working.1 hd (by rw [toRat_eq_zero hZero, Nat.cast_zero])
    rw [Nat.cast_zero] at hdLe
    exact ⟨d, hd, nonneg_of_toDecimal? h.working.1 hd, hdLe.trans hyNonneg⟩
  · obtain ⟨d, hd, hdValue⟩ := exists_toDecimal?_last h.working.1 h.le_one.1 hScale
    refine ⟨d, hd, nonneg_of_toDecimal? h.working.1 hd, ?_⟩
    rcases Nat.lt_or_ge r.mantissa (2 * 10 ^ 27) with hTiny | hLarge
    · rw [hdValue, lastChunk_eq_zero (by omega), Nat.cast_zero, zero_div]
      exact hyNonneg
    · -- counted in units, the gap has outgrown the loss
      have hLargeRat : (2 : ℚ) * 10 ^ 27 ≤ r.mantissa := by exact_mod_cast hLarge
      have hUnits : r.toRat = r.mantissa * unit := by
        unfold toRat unit
        rw [hScale]
        ring
      have hSlack := slack_le_gap hk hk'
      have hGrown := mul_le_mul_of_nonneg_right hLargeRat (gap_nonneg k)
      have hLe : (r.mantissa : ℚ) * unit ≤ r'.toRat := by
        rw [hUnits] at hGap
        have := mul_le_mul_of_nonneg_right (hSlack.trans hGrown) unit_pos.le
        linarith
      rcases hFull'.scale_eq_of_le_one h.working.2 h.le_one.2 with hZero' | hScale'
      · rw [toRat_eq_zero hZero'] at hLe
        have := mul_pos (by linarith : (0 : ℚ) < r.mantissa) unit_pos
        linarith
      · obtain ⟨d', hd', hdValue'⟩ := exists_toDecimal?_last h.working.2 h.le_one.2 hScale'
        rw [hy] at hd'
        cases hd'
        have hUnits' : r'.toRat = r'.mantissa * unit := by
          unfold toRat unit
          rw [hScale']
          ring
        rw [hUnits'] at hLe
        have hMantissa : r.mantissa ≤ r'.mantissa := by
          exact_mod_cast le_of_mul_le_mul_right hLe unit_pos
        rw [hdValue, hdValue']
        apply div_le_div_of_nonneg_right _ (by positivity)
        exact_mod_cast lastChunk_mono (Nat.div_le_div_right hMantissa)

end Below

section Above

/-- The share of a product above one that rounding can change. -/
def share : ℚ := 1 / 10 ^ 56

theorem share_pos : 0 < share := by
  unfold share
  norm_num

theorem share_small : share ≤ 1 / 1000 := by
  unfold share
  norm_num

/-- Two bases above one and their gap, after `k` squarings. -/
structure BasesAbove (k : Nat) (b b' : WideDecimal) : Prop where
  working : Working b ∧ Working b'
  ripe : Ripe k b ∧ Ripe k b'
  one_le : 1 ≤ b.toRat ∧ 1 ≤ b'.toRat
  gap_le : b.toRat * (1 + gap k + 10 * share) ≤ b'.toRat

/-- The accumulators that go with them. -/
structure AccsAbove (a a' : WideDecimal) : Prop where
  working : Working a ∧ Working a'
  one_le : 1 ≤ a.toRat ∧ 1 ≤ a'.toRat
  le : a.toRat ≤ a'.toRat

structure PowersAbove (k : Nat) (r r' : WideDecimal) : Prop where
  working : Working r ∧ Working r'
  full : 6 ≤ k → Full r ∧ Full r'
  one_le : 1 ≤ r.toRat ∧ 1 ≤ r'.toRat
  gap_le : r.toRat * (1 + gap k) ≤ r'.toRat

theorem follows_product_of_one_le {x y x' y' : WideDecimal} (hx : Working x ∧ Working x')
    (hy : Working y ∧ Working y') (hxOne : 1 ≤ x.toRat ∧ 1 ≤ x'.toRat)
    (hyOne : 1 ≤ y.toRat ∧ 1 ≤ y'.toRat) (hxLe : x.toRat ≤ x'.toRat) (hyLe : y.toRat ≤ y'.toRat) :
    Follows (fun z z' => (IsProduct x y z ∧ IsProduct x' y' z') ∧ (1 ≤ z.toRat ∧ 1 ≤ z'.toRat) ∧
      z.toRat * (1 - share) ≤ x.toRat * y.toRat ∧ x'.toRat * y'.toRat ≤ z'.toRat * (1 + share))
      (x.mul? y) (x'.shortMul? y') := by
  intro z' hz'
  obtain ⟨hz', hShort⟩ := shortMul?_eq_some_iff.mp hz'
  have hProduct' := isProduct_of_mul? hx.2 hy.2 hz'
  have hNear' := abs_le.mp (hProduct'.near_of_one_le hxOne.2 hyOne.2)
  have hOrder : x.toRat * y.toRat ≤ x'.toRat * y'.toRat :=
    mul_le_mul hxLe hyLe (toRat_nonneg y) (toRat_nonneg x')
  obtain ⟨z, hz⟩ := exists_mul? (x := x) (y := y) (by linarith)
  have hProduct := isProduct_of_mul? hx.1 hy.1 hz
  have hNear := abs_le.mp (hProduct.near_of_one_le hxOne.1 hyOne.1)
  refine ⟨z, hz, ⟨hProduct, hProduct'⟩, ⟨hProduct.one_le hxOne.1 hyOne.1,
    hProduct'.one_le hxOne.2 hyOne.2⟩, ?_, ?_⟩
  · unfold share
    linarith
  · unfold share
    linarith

theorem BasesAbove.le {k : Nat} {b b' : WideDecimal} (h : BasesAbove k b b') :
    b.toRat ≤ b'.toRat := by
  have hGap := gap_nonneg k
  have hShare := share_pos
  have hExtra : 0 ≤ b.toRat * (gap k + 10 * share) :=
    mul_nonneg (toRat_nonneg b) (by linarith)
  have := h.gap_le
  linarith

theorem BasesAbove.square {k : Nat} {b b' : WideDecimal} (h : BasesAbove k b b') :
    Follows (BasesAbove (k + 1)) (b.mul? b) (b'.shortMul? b') := by
  refine (follows_product_of_one_le h.working h.working h.one_le h.one_le h.le h.le).imp ?_
  rintro z z' ⟨⟨hProduct, hProduct'⟩, hOne, hLow, hHigh⟩
  have hSquare := square_ratio share_pos share_small (gap_nonneg k) (gap_small k) (toRat_nonneg b)
    (toRat_nonneg z) h.gap_le hLow hHigh
  refine ⟨⟨hProduct.working, hProduct'.working⟩, ⟨hProduct.ripe h.ripe.1, hProduct'.ripe h.ripe.2⟩,
    hOne, le_trans ?_ hSquare⟩
  apply mul_le_mul_of_nonneg_left _ (toRat_nonneg z)
  have := gap_succ_le k
  linarith

theorem AccsAbove.last {k : Nat} {a a' b b' : WideDecimal} (hA : AccsAbove a a')
    (hB : BasesAbove k b b') : Follows (PowersAbove k) (a.mul? b) (a'.shortMul? b') := by
  refine (follows_product_of_one_le hA.working hB.working hA.one_le hB.one_le hA.le hB.le).imp ?_
  rintro z z' ⟨⟨hProduct, hProduct'⟩, hOne, hLow, hHigh⟩
  exact ⟨⟨hProduct.working, hProduct'.working⟩, fun hk => ⟨hProduct.full hB.working.1 hB.ripe.1 hk,
    hProduct'.full hB.working.2 hB.ripe.2 hk⟩, hOne, product_ratio share_pos share_small
    (gap_nonneg k) (gap_small k) (toRat_nonneg a) (toRat_nonneg b) (toRat_nonneg z) hA.le hB.gap_le
    hLow hHigh⟩

theorem PowersAbove.accs {k : Nat} {r r' : WideDecimal} (h : PowersAbove k r r') : AccsAbove r r' where
  working := h.working
  one_le := h.one_le
  le := by
    have hExtra := mul_nonneg (toRat_nonneg r) (gap_nonneg k)
    have := h.gap_le
    linarith

theorem excessDigits_of_leastKept {m s : Nat} (hm : leastKept ≤ m) (hm' : m < 2 ^ 192) :
    excessDigits 2 28 m s = max (if m < 2 ^ 189 then 28 else 29) (s - 28) := by
  have hLow : 2 ^ 187 ≤ m := le_trans (by decide) hm
  have hNonzero : m ≠ 0 := by omega
  have hBits : 187 ≤ m.log2 := (Nat.le_log2 hNonzero).mpr hLow
  have hBits' : m.log2 < 192 := (Nat.log2_lt hNonzero).mpr hm'
  have hLong : ¬topWord m ≤ 2 := by
    rw [topWord_le_iff]
    omega
  have hEstimate : (m.log2 + 1 - 32 * (2 + 1)) * 77 / 256 + 1 = if m < 2 ^ 189 then 28 else 29 := by
    split
    · rename_i hShort
      have := (Nat.log2_lt hNonzero).mpr hShort
      omega
    · rename_i hShort
      have := (Nat.le_log2 hNonzero).mpr (Nat.le_of_not_lt hShort)
      omega
  unfold excessDigits
  dsimp only
  rw [if_neg hLong, hEstimate]

theorem narrowed_of_leastKept (hm : leastKept ≤ x.mantissa) :
    x.narrowed = shorten 2 28 x.mantissa x.scale := by
  have hLow : 2 ^ 96 ≤ x.mantissa := le_trans (by decide) hm
  unfold narrowed
  rw [if_neg (by omega)]

/-- A full mantissa comes back to ninety-six bits only with at least twenty-eight places to lose. -/
theorem lt_of_narrowed {m s : Nat} (hx : Working x) (hm : leastKept ≤ x.mantissa)
    (h : x.narrowed = some (m, s)) : x.toRat < 2 ^ 189 / 10 ^ 28 := by
  rw [narrowed_of_leastKept hm] at h
  have hRoom := excessDigits_le_of_shorten h
  rw [excessDigits_of_leastKept hm hx.mantissa_lt] at hRoom
  unfold toRat
  by_cases hShort : x.mantissa < 2 ^ 189
  · have hMantissa : (x.mantissa : ℚ) < 2 ^ 189 := by exact_mod_cast hShort
    have hPow : (10 : ℚ) ^ 28 ≤ 10 ^ x.scale := by
      apply pow_le_pow_right₀ (by norm_num)
      rw [if_pos hShort] at hRoom
      omega
    exact div_lt_div₀ hMantissa hPow (by positivity) (by positivity)
  · have hMantissa : (x.mantissa : ℚ) < 2 ^ 192 := by exact_mod_cast hx.mantissa_lt
    have hPow : (10 : ℚ) ^ 29 ≤ 10 ^ x.scale := by
      apply pow_le_pow_right₀ (by norm_num)
      rw [if_neg hShort] at hRoom
      omega
    have hBound : (x.mantissa : ℚ) / 10 ^ x.scale < 2 ^ 192 / 10 ^ 29 :=
      div_lt_div₀ hMantissa hPow (by positivity) (by positivity)
    exact hBound.trans (by norm_num)

theorem exists_narrowed (hx : Working x) (hm : leastKept ≤ x.mantissa)
    (h : x.toRat < 2 ^ 189 / 10 ^ 28) : ∃ m s, x.narrowed = some (m, s) := by
  have hBound : x.mantissa * 10 ^ 28 < 2 ^ 189 * 10 ^ x.scale := by
    unfold toRat at h
    rw [div_lt_div_iff₀ (by positivity) (by positivity)] at h
    exact_mod_cast h
  have hPlaces : 28 ≤ x.scale := by
    by_contra hLess
    have hPow : 10 ^ x.scale ≤ 10 ^ 27 := Nat.pow_le_pow_right (by decide) (by omega)
    have hLeast : 2 ^ 189 * 10 ^ 27 < leastKept * 10 ^ 28 := by decide
    omega
  have hRoom : 29 ≤ x.scale ∨ x.mantissa < 2 ^ 189 := by
    by_contra hNone
    have hScale : x.scale = 28 := by omega
    rw [hScale] at hBound
    omega
  have hCount := excessDigits_of_leastKept (s := x.scale) hm hx.mantissa_lt
  have hMantissa := hx.mantissa_lt
  have hScale := hx.scale_le
  have hCountRange : excessDigits 2 28 x.mantissa x.scale ≤ x.scale ∧
      (excessDigits 2 28 x.mantissa x.scale = 29 ∨
        excessDigits 2 28 x.mantissa x.scale = 28 ∧ x.mantissa < 2 ^ 189) := by
    rw [hCount]
    split <;> omega
  rw [narrowed_of_leastKept hm]
  unfold shorten
  generalize excessDigits 2 28 x.mantissa x.scale = count at hCountRange
  obtain ⟨hLe, hRange⟩ := hCountRange
  have hFits : x.mantissa / 10 ^ count + 1 < 2 ^ 96 := by
    rcases hRange with rfl | ⟨rfl, hShort⟩
    · omega
    · omega
  dsimp only
  rw [if_neg (by omega), if_neg (by omega)]
  have hSpec := @Shortening.run_spec 2 _ ⟨x.mantissa, x.scale, 0⟩ hLe
  cases hRun : Shortening.run 2 ⟨x.mantissa, x.scale, 0⟩ count with
  | none =>
    rw [hRun] at hSpec
    have hSmaller : x.mantissa / 10 ^ x.scale ≤ x.mantissa / 10 ^ count :=
      Nat.div_le_div_left (Nat.pow_le_pow_right (by decide) hLe) (by positivity)
    dsimp only at hSpec
    omega
  | some y =>
    rw [hRun] at hSpec
    obtain ⟨k, hk⟩ := hSpec
    have hSame : y.mantissa ≤ x.mantissa / 10 ^ count := by
      rw [hk.mantissa_eq]
      exact Nat.div_le_div_left (Nat.pow_le_pow_right (by decide) hk.count_le) (by positivity)
    have hNext : topWord (y.mantissa + 1) ≤ 2 := topWord_le_iff.mpr (by omega)
    have hTop : topWord y.mantissa ≤ 2 := topWord_le_iff.mpr (by omega)
    have hRound : ∃ p t, y.round 2 = some (p, t) ∧ topWord p ≤ 2 := by
      unfold Shortening.round
      split
      · exact ⟨_, _, rfl, hNext⟩
      · exact ⟨_, _, rfl, hTop⟩
    obtain ⟨p, t, hRound, hTop⟩ := hRound
    exact ⟨p, t, by simp [hRound, hTop]⟩

/-- A narrowed value above one is off by a small share. -/
theorem narrowed_near {m s : Nat} (hOne : 1 ≤ x.toRat) (h : x.narrowed = some (m, s)) :
    |(m : ℚ) / 10 ^ s - x.toRat| ≤ (m : ℚ) / 10 ^ s / (3 * 10 ^ 27) := by
  obtain ⟨k, hScale, hBeside, hKept⟩ := (shortened_of_narrowed h).dropped
  have hNear := hBeside.abs_sub_le hScale
  have hValue : 1 ≤ (m : ℚ) / 10 ^ s := by
    have := hBeside.natCast_le_div (N := 1) hScale (by rw [Nat.cast_one]; exact hOne)
    rwa [Nat.cast_one] at this
  rcases hKept with rfl | hPlaces | hMantissa
  · have hSame : m = x.mantissa := le_antisymm (hBeside.above (by omega)) (hBeside.below (by omega))
    have hExact : x.toRat = (m : ℚ) / 10 ^ s := by
      unfold toRat
      rw [← hScale, Nat.add_zero, hSame]
    rw [hExact, sub_self, abs_zero]
    positivity
  · refine hNear.trans ?_
    have hUnit : (1 : ℚ) / 10 ^ s ≤ 1 / (3 * 10 ^ 27) := by
      rw [hPlaces]
      norm_num
    exact hUnit.trans (div_le_div_of_nonneg_right hValue (by positivity))
  · refine hNear.trans ?_
    have hLarge : 3 * 10 ^ 27 ≤ m := le_trans (by norm_num) hMantissa
    have hLargeRat : (3 : ℚ) * 10 ^ 27 ≤ m := by exact_mod_cast hLarge
    have hPow : (0 : ℚ) < 10 ^ s := by positivity
    rw [div_div, div_le_div_iff₀ hPow (by positivity)]
    nlinarith

theorem gap_ge {k : Nat} (hk : 10 ≤ k) : 4 / 10 ^ 26 ≤ gap k := by
  have hGrowth : (2 : ℚ) ^ 10 ≤ growth k := pow_le_pow_right₀ (by norm_num) (by omega)
  unfold gap
  linarith

theorem PowersAbove.narrow {k : Nat} {r r' : WideDecimal} (h : PowersAbove k r r') (hk : 10 ≤ k) :
    Follows Decimal.Below r.toDecimal? r'.toDecimal? := by
  intro y hy
  obtain ⟨hFull, hFull'⟩ := h.full (by omega)
  have hNonzero : ∀ {z : WideDecimal}, 1 ≤ z.toRat → z.mantissa ≠ 0 := by
    intro z hOne hZero
    rw [toRat_eq_zero hZero] at hOne
    linarith
  have hKept := leastKept_le_of_one_le h.one_le.1 (hFull.resolve_left (hNonzero h.one_le.1))
  have hKept' := leastKept_le_of_one_le h.one_le.2 (hFull'.resolve_left (hNonzero h.one_le.2))
  obtain ⟨m', s', hNarrowed', hValue'⟩ := toRat_of_toDecimal? h.working.2 hy
  have hLimit := h.accs.le.trans_lt (lt_of_narrowed h.working.2 hKept' hNarrowed')
  obtain ⟨m, s, hNarrowed⟩ := exists_narrowed h.working.1 hKept hLimit
  obtain ⟨d, hd, hValue⟩ := exists_toDecimal? h.working.1 hNarrowed
  have hNear := abs_le.mp (narrowed_near h.one_le.1 hNarrowed)
  have hNear' := abs_le.mp (narrowed_near h.one_le.2 hNarrowed')
  rw [← hValue] at hNear
  rw [← hValue'] at hNear'
  have hNonneg := nonneg_of_toDecimal? h.working.1 hd
  have hGap : r.toRat * (1 + 4 / 10 ^ 26) ≤ r'.toRat := by
    have := mul_le_mul_of_nonneg_left (gap_ge hk) (toRat_nonneg r)
    have := h.gap_le
    linarith
  exact ⟨d, hd, hNonneg, by linarith⟩

end Above

end WideDecimal

end BondingCurve
