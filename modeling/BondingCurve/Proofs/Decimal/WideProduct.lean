import BondingCurve.Proofs.Decimal.Value

/-!
# Products with working mantissas

The wide product drops digits in chunks and does not always round to nearest, but it never crosses
a unit of the place it keeps, and it keeps either fifty-seven places or nearly 192 bits unless it is
exact. The same holds of the way back to ninety-six bits.
-/

namespace BondingCurve

/-- `p` is the whole part of `m / d` or, when that is not exact, the next integer. -/
structure Beside (m d p : Nat) : Prop where
  below : ∀ {N : Nat}, N * d ≤ m → N ≤ p
  above : ∀ {N : Nat}, m ≤ N * d → p ≤ N

namespace Beside

variable {m d e p q : Nat}

theorem self (m : Nat) : Beside m 1 m where
  below h := by omega
  above h := by omega

theorem div (m : Nat) (hd : 0 < d) : Beside m d (m / d) where
  below h := (Nat.le_div_iff_mul_le hd).mpr h
  above h := Nat.div_le_of_le_mul (by rwa [Nat.mul_comm])

theorem div_succ (hd : 0 < d) (h : m % d ≠ 0) : Beside m d (m / d + 1) where
  below hN := Nat.le_succ_of_le ((div m hd).below hN)
  above {N} hN := by
    by_contra hLess
    have hLow : N * d ≤ m := (Nat.le_div_iff_mul_le hd).mp (by omega)
    have hEq : m = N * d := by omega
    exact h (by rw [hEq, Nat.mul_mod_left])

theorem zero (hd : 0 < d) : Beside 0 d 0 := by
  simpa using div 0 hd

theorem trans (h : Beside m d p) (h' : Beside p e q) : Beside m (d * e) q where
  below hN := h'.below (h.below (by rwa [Nat.mul_assoc, Nat.mul_comm e d]))
  above hN := h'.above (h.above (by rwa [Nat.mul_assoc, Nat.mul_comm e d]))

theorem lt_succ_mul (h : Beside m d p) : m < (p + 1) * d := by
  by_contra hLess
  have := h.below (Nat.le_of_not_lt hLess)
  omega

theorem mul_lt_add (h : Beside m d p) (hd : 0 < d) : p * d < m + d := by
  by_contra hLess
  rcases Nat.eq_zero_or_pos p with rfl | hp
  · omega
  · have hPred : p * d = (p - 1) * d + d := by
      rw [← Nat.succ_mul]
      congr
      omega
    have := h.above (N := p - 1) (by omega)
    omega

section Value

variable {s t k N : Nat}

theorem natCast_le_div (h : Beside m (10 ^ k) p) (hScale : t + k = s) (hN : (N : ℚ) ≤ m / 10 ^ s) :
    (N : ℚ) ≤ p / 10 ^ t := by
  rw [le_div_iff₀ (by positivity), ← hScale, pow_add, ← mul_assoc] at hN
  rw [le_div_iff₀ (by positivity)]
  exact_mod_cast h.below (N := N * 10 ^ t) (by exact_mod_cast hN)

theorem div_le_natCast (h : Beside m (10 ^ k) p) (hScale : t + k = s) (hN : (m : ℚ) / 10 ^ s ≤ N) :
    (p : ℚ) / 10 ^ t ≤ N := by
  rw [div_le_iff₀ (by positivity), ← hScale, pow_add, ← mul_assoc] at hN
  rw [div_le_iff₀ (by positivity)]
  exact_mod_cast h.above (N := N * 10 ^ t) (by exact_mod_cast hN)

theorem abs_sub_le (h : Beside m (10 ^ k) p) (hScale : t + k = s) :
    |(p : ℚ) / 10 ^ t - m / 10 ^ s| ≤ 1 / 10 ^ t := by
  have hPow : (0 : ℚ) < 10 ^ k := by positivity
  have hLow : (p : ℚ) * 10 ^ k ≤ m + 10 ^ k := by
    exact_mod_cast (h.mul_lt_add (by positivity)).le
  have hHigh : (m : ℚ) ≤ (p + 1) * 10 ^ k := by exact_mod_cast h.lt_succ_mul.le
  have hUnits : (m : ℚ) / 10 ^ s = m / 10 ^ k / 10 ^ t := by
    rw [← hScale, pow_add, div_div, mul_comm (10 ^ k : ℚ)]
  rw [hUnits, ← sub_div, abs_div, abs_of_pos (by positivity : (0 : ℚ) < 10 ^ t)]
  apply div_le_div_of_nonneg_right _ (by positivity)
  rw [abs_le]
  constructor
  · have := (div_le_iff₀ hPow).mpr hHigh
    linarith
  · have := (le_div_iff₀ hPow).mpr hLow
    rw [add_div, div_self hPow.ne'] at this
    linarith

end Value

theorem nearestQuotient (m : Nat) (hd : 0 < d) : Beside m d (nearestQuotient m d) := by
  unfold BondingCurve.nearestQuotient
  split
  · exact div_succ hd (by omega)
  · exact div m hd

end Beside

namespace WideDecimal

theorem dropDigits_beside (m k : Nat) : Beside m (10 ^ k) (dropDigits m k) := by
  fun_induction dropDigits m k with
  | case1 m => exact .self m
  | case2 m k ih =>
    have hChunk : Beside m (10 ^ min (k + 1) 9) (roundHalfEven m (min (k + 1) 9)) :=
      .nearestQuotient m (by positivity)
    have hPow : 10 ^ (k + 1) = 10 ^ min (k + 1) 9 * 10 ^ (k + 1 - min (k + 1) 9) := by
      rw [← pow_add, Nat.add_sub_cancel' (min_le_left _ _)]
    rw [hPow]
    exact hChunk.trans ih

theorem topWord_le_iff {m top : Nat} : topWord m ≤ top ↔ m < 2 ^ (32 * (top + 1)) := by
  have hWords : topWord m ≤ top ↔ m.log2 < 32 * (top + 1) := by
    unfold topWord
    omega
  rw [hWords]
  rcases Nat.eq_zero_or_pos m with rfl | hm
  · have hZero : Nat.log2 0 = 0 := by decide
    rw [hZero]
    exact ⟨fun _ => by positivity, fun _ => by omega⟩
  · exact Nat.log2_lt (by omega)

/-- `k` digits go: `count` of them, or more because the mantissa was still too long. -/
structure Shortening.Stops (top : Nat) (x : Shortening) (count k : Nat) (y : Shortening) : Prop where
  count_le : count ≤ k
  mantissa_eq : y.mantissa = x.mantissa / 10 ^ k
  scale_eq : y.scale + k = x.scale
  fits : y.mantissa < 2 ^ (32 * (top + 1))
  least : k = count ∨ k ≠ 0 ∧ 2 ^ (32 * (top + 1)) ≤ x.mantissa / 10 ^ (k - 1)
  dropped_zero : k = 0 → y.dropped = x.dropped
  dropped : k ≠ 0 → y.dropped ≠ 0 → x.mantissa % 10 ^ k ≠ 0

namespace Shortening

variable {top count k j : Nat} {x y : Shortening}

theorem Stops.refl (h : x.mantissa < 2 ^ (32 * (top + 1))) : Stops top x 0 0 x where
  count_le := le_rfl
  mantissa_eq := by simp
  scale_eq := by simp
  fits := h
  least := .inl rfl
  dropped_zero _ := rfl
  dropped h := absurd rfl h

theorem Stops.chunk (hj : 0 < j) (hScale : j ≤ x.scale)
    (hCount : j ≤ count ∨ j = 1 ∧ count = 0 ∧ ¬x.mantissa < 2 ^ (32 * (top + 1)))
    (h : Stops top ⟨x.mantissa / 10 ^ j, x.scale - j, x.mantissa % 10 ^ j⟩ (count - j) k y) :
    Stops top x count (j + k) y where
  count_le := by have := h.count_le; omega
  mantissa_eq := by rw [h.mantissa_eq, Nat.div_div_eq_div_mul, pow_add]
  scale_eq := by have := h.scale_eq; dsimp only at this; omega
  fits := h.fits
  least := by
    rcases h.least with hLeast | ⟨hk, hLong⟩
    · rcases hCount with hLe | ⟨rfl, rfl, hLong⟩
      · left
        omega
      · right
        have hk : k = 0 := by omega
        subst hk
        exact ⟨by omega, by simpa using hLong⟩
    · right
      refine ⟨by omega, ?_⟩
      rw [Nat.div_div_eq_div_mul, ← pow_add] at hLong
      rwa [Nat.add_sub_assoc (by omega)]
  dropped_zero hZero := by omega
  dropped _ hDropped hMod := by
    rcases Nat.eq_zero_or_pos k with rfl | hk
    · rw [h.dropped_zero rfl] at hDropped
      exact hDropped (by simpa using hMod)
    · apply h.dropped (by omega) hDropped
      rw [pow_add] at hMod
      exact Nat.mod_eq_zero_of_dvd
        (Nat.dvd_div_of_mul_dvd (Nat.dvd_of_mod_eq_zero hMod))

/-- The run stops at the first place from `count` on at which the mantissa fits, if there is one. -/
theorem run_spec (hCount : count ≤ x.scale) :
    match run top x count with
    | some y => ∃ k, Stops top x count k y
    | none => 2 ^ (32 * (top + 1)) ≤ x.mantissa / 10 ^ x.scale := by
  fun_induction run top x count with
  | case1 x count hScale hStop =>
    obtain ⟨rfl, hFits⟩ := hStop
    exact ⟨0, .refl (topWord_le_iff.mp hFits)⟩
  | case2 x count hScale hStop =>
    have hZero : count = 0 := by omega
    rw [hZero, topWord_le_iff] at hStop
    simpa [hScale] using hStop
  | case3 x count hScale hStop =>
    obtain ⟨rfl, hFits⟩ := hStop
    exact ⟨0, .refl (topWord_le_iff.mp hFits)⟩
  | case4 x count hScale hStop j ih =>
    have hj : 0 < j := by omega
    have hjScale : j ≤ x.scale := by omega
    have hjCount : j ≤ count ∨ j = 1 ∧ count = 0 ∧ ¬x.mantissa < 2 ^ (32 * (top + 1)) := by
      rcases Nat.eq_zero_or_pos count with rfl | hPos
      · right
        refine ⟨by omega, rfl, fun hFits => hStop ⟨rfl, topWord_le_iff.mpr hFits⟩⟩
      · left
        omega
    have hRest := ih (by dsimp only; omega)
    cases hRun : run top ⟨x.mantissa / 10 ^ j, x.scale - j, x.mantissa % 10 ^ j⟩ (count - j) with
    | some y =>
      rw [hRun] at hRest
      obtain ⟨k, hk⟩ := hRest
      exact ⟨j + k, hk.chunk hj hjScale hjCount⟩
    | none =>
      rw [hRun] at hRest
      dsimp only at hRest ⊢
      rwa [Nat.div_div_eq_div_mul, ← pow_add, Nat.add_sub_cancel' hjScale] at hRest

/-- Rounding up moves to the next unit of the last place, or of the one before it. -/
theorem Stops.round {m s : Nat} (hx : x.dropped = 0) (h : Stops top x count k y)
    (hRound : y.round top = some (m, s)) :
    (s + k = x.scale ∧ Beside x.mantissa (10 ^ k) m ∧ y.mantissa ≤ m) ∨
      (s + (k + 1) = x.scale ∧ Beside x.mantissa (10 ^ (k + 1)) m ∧
        m = 2 ^ (32 * (top + 1)) / 10) := by
  have hScale := h.scale_eq
  unfold Shortening.round at hRound
  split at hRound
  · rename_i hUp
    have hDropped : y.dropped ≠ 0 := by omega
    have hk : k ≠ 0 := by
      intro hk
      exact hDropped (by rw [h.dropped_zero hk, hx])
    have hNext : Beside x.mantissa (10 ^ k) (y.mantissa + 1) := by
      rw [h.mantissa_eq]
      exact .div_succ (by positivity) (h.dropped hk hDropped)
    split at hRound
    · cases hRound
      exact .inl ⟨hScale, hNext, Nat.le_succ _⟩
    · rename_i hLong
      split at hRound
      · cases hRound
      · cases hRound
        rw [topWord_le_iff] at hLong
        have hFits := h.fits
        have hFull : y.mantissa + 1 = 2 ^ (32 * (top + 1)) := by omega
        have hCut : Beside (y.mantissa + 1) 10 ((y.mantissa + 1) / 10) := .div _ (by decide)
        right
        refine ⟨by omega, ?_, by rw [hFull]⟩
        rw [pow_succ]
        exact hNext.trans hCut
  · cases hRound
    left
    refine ⟨hScale, ?_, le_rfl⟩
    rw [h.mantissa_eq]
    exact .div _ (by positivity)

end Shortening

theorem ten_pow_le_two_pow (b : Nat) : 10 ^ (b * 77 / 256) ≤ 2 ^ b := by
  have hDigits : b * 77 / 256 * 256 ≤ b * 77 := Nat.div_mul_le_self _ _
  have hPower : (10 ^ (b * 77 / 256)) ^ 256 ≤ (2 ^ b) ^ 256 := by
    calc
      (10 ^ (b * 77 / 256)) ^ 256 = 10 ^ (b * 77 / 256 * 256) := (pow_mul _ _ _).symm
      _ ≤ 10 ^ (b * 77) := Nat.pow_le_pow_right (by decide) hDigits
      _ = (10 ^ 77) ^ b := by rw [Nat.mul_comm, pow_mul]
      _ ≤ (2 ^ 256) ^ b := Nat.pow_le_pow_left (by norm_num) b
      _ = (2 ^ b) ^ 256 := by rw [← pow_mul, ← pow_mul, Nat.mul_comm]
  exact le_of_pow_le_pow_left₀ (by decide) (by positivity) hPower

theorem two_pow_mul_ten_pow_le {w m : Nat} (hw : 0 < w) (h : 2 ^ w ≤ m) :
    2 ^ (w - 1) * 10 ^ ((m.log2 + 1 - w) * 77 / 256) ≤ m := by
  have hm : m ≠ 0 := by
    have : 0 < 2 ^ w := by positivity
    omega
  have hBits : w ≤ m.log2 := (Nat.le_log2 hm).mpr h
  calc
    2 ^ (w - 1) * 10 ^ ((m.log2 + 1 - w) * 77 / 256) ≤ 2 ^ (w - 1) * 2 ^ (m.log2 + 1 - w) :=
      Nat.mul_le_mul_left _ (ten_pow_le_two_pow _)
    _ = 2 ^ m.log2 := by
      rw [← pow_add]
      congr 1
      omega
    _ ≤ m := Nat.log2_self_le hm

/-- The estimate leaves at least all but five bits. -/
theorem le_div_estimate {w m : Nat} (hw : 0 < w) (h : 2 ^ w ≤ m) :
    2 ^ (w - 1) / 10 ≤ m / 10 ^ ((m.log2 + 1 - w) * 77 / 256 + 1) := by
  rw [Nat.le_div_iff_mul_le (by positivity), pow_succ]
  calc
    2 ^ (w - 1) / 10 * (10 ^ ((m.log2 + 1 - w) * 77 / 256) * 10)
      = 2 ^ (w - 1) / 10 * 10 * 10 ^ ((m.log2 + 1 - w) * 77 / 256) := by ring
    _ ≤ 2 ^ (w - 1) * 10 ^ ((m.log2 + 1 - w) * 77 / 256) :=
      Nat.mul_le_mul_right _ (Nat.div_mul_le_self _ _)
    _ ≤ m := two_pow_mul_ten_pow_le hw h

/-- What shortening `m / 10 ^ s` leaves: no unit of the last place is crossed, and digits go only
for the sake of the scale or of the bits. -/
structure Shortened (top maxScale m s m' s' : Nat) : Prop where
  dropped : ∃ k, s' + k = s ∧ Beside m (10 ^ k) m' ∧
    (k = 0 ∨ s' = maxScale ∨ 2 ^ (32 * (top + 1) - 1) / 10 ≤ m')
  fits : m' < 2 ^ (32 * (top + 1))
  scale_le : s' ≤ maxScale

theorem le_excessDigits (top maxScale m s : Nat) : s - maxScale ≤ excessDigits top maxScale m s :=
  le_max_right _ _

theorem excessDigits_eq_zero_iff {top maxScale m s : Nat} :
    excessDigits top maxScale m s = 0 ↔ topWord m ≤ top ∧ s ≤ maxScale := by
  unfold excessDigits
  dsimp only
  split <;> omega

/-- The first place tried keeps enough bits, unless it is the place asked for. -/
theorem excessDigits_spec {top maxScale m s : Nat} :
    excessDigits top maxScale m s = s - maxScale ∨
      2 ^ (32 * (top + 1) - 1) / 10 ≤ m / 10 ^ excessDigits top maxScale m s := by
  unfold excessDigits
  dsimp only
  split
  · left
    omega
  · rename_i hLong
    rw [topWord_le_iff, Nat.not_lt] at hLong
    rcases le_total ((m.log2 + 1 - 32 * (top + 1)) * 77 / 256 + 1) (s - maxScale) with h | h
    · left
      omega
    · right
      rw [max_eq_left h]
      exact le_div_estimate (by omega) hLong

theorem excessDigits_le_of_shorten {top maxScale m s : Nat} {p : Nat × Nat}
    (h : shorten top maxScale m s = some p) : excessDigits top maxScale m s ≤ s := by
  by_contra hLess
  unfold shorten at h
  dsimp only at h
  rw [if_neg (by omega), if_pos (by omega)] at h
  cases h

theorem shortened_of_shorten {top maxScale m s m' s' : Nat}
    (h : shorten top maxScale m s = some (m', s')) : Shortened top maxScale m s m' s' := by
  have hLeast := le_excessDigits top maxScale m s
  have hKeeps := @excessDigits_spec top maxScale m s
  unfold shorten at h
  dsimp only at h
  split at h
  · rename_i hCount
    obtain ⟨hFits, hScale⟩ := excessDigits_eq_zero_iff.mp hCount
    cases h
    exact ⟨⟨0, rfl, .self m, .inl rfl⟩, topWord_le_iff.mp hFits, hScale⟩
  split at h
  · cases h
  · rename_i hCount hScale
    generalize excessDigits top maxScale m s = count at *
    obtain ⟨y, hRun, h⟩ := Option.bind_eq_some_iff.mp h
    obtain ⟨⟨p, t⟩, hRound, h⟩ := Option.bind_eq_some_iff.mp h
    dsimp only at h
    split at h
    · rename_i hFits
      cases h
      have hSpec := @Shortening.run_spec top _ ⟨m, s, 0⟩ (Nat.le_of_not_lt hScale)
      rw [hRun] at hSpec
      obtain ⟨k, hk⟩ := hSpec
      have hCountLe := hk.count_le
      refine ⟨?_, topWord_le_iff.mp hFits, ?_⟩
      · rcases hk.round rfl hRound with ⟨hDrop, hBeside, hLe⟩ | ⟨hDrop, hBeside, hEq⟩
        · refine ⟨k, hDrop, hBeside, ?_⟩
          dsimp only at hDrop
          rw [hk.mantissa_eq] at hLe
          dsimp only at hLe
          rcases hk.least with rfl | ⟨hPos, hLong⟩
          · rcases hKeeps with hEq | hKeeps
            · right
              left
              omega
            · exact .inr (.inr (hKeeps.trans hLe))
          · -- one place earlier the mantissa was still too long
            right
            right
            refine le_trans ?_ hLe
            have hStep : m / 10 ^ k = m / 10 ^ (k - 1) / 10 := by
              rw [Nat.div_div_eq_div_mul, ← pow_succ, Nat.sub_add_cancel (by omega)]
            rw [hStep]
            apply Nat.div_le_div_right
            exact (Nat.pow_le_pow_right (by decide) (Nat.sub_le _ _)).trans hLong
        · refine ⟨k + 1, hDrop, hBeside, .inr (.inr ?_)⟩
          rw [hEq]
          exact Nat.div_le_div_right (Nat.pow_le_pow_right (by decide) (Nat.sub_le _ _))
      · rcases hk.round rfl hRound with ⟨hDrop, _⟩ | ⟨hDrop, _⟩ <;>
        · dsimp only at hDrop
          omega
    · cases h

theorem exists_shorten {top maxScale m s : Nat} (h : m < 2 ^ (32 * (top + 1) - 1) * 10 ^ s) :
    ∃ m' s', shorten top maxScale m s = some (m', s') := by
  have hHalf : 2 ^ (32 * (top + 1) - 1) * 2 = 2 ^ (32 * (top + 1)) := by
    rw [← pow_succ]
    congr 1
  have hWhole : m / 10 ^ s < 2 ^ (32 * (top + 1) - 1) :=
    (Nat.div_lt_iff_lt_mul (by positivity)).mpr h
  have hCount : excessDigits top maxScale m s ≤ s := by
    unfold excessDigits
    dsimp only
    split
    · omega
    · rename_i hLong
      rw [topWord_le_iff, Nat.not_lt] at hLong
      have hEstimate := two_pow_mul_ten_pow_le (by omega) hLong
      apply max_le _ (Nat.sub_le _ _)
      by_contra hLess
      have hDigits : 10 ^ s ≤ 10 ^ ((m.log2 + 1 - 32 * (top + 1)) * 77 / 256) :=
        Nat.pow_le_pow_right (by decide) (by omega)
      have := Nat.mul_le_mul_left (2 ^ (32 * (top + 1) - 1)) hDigits
      omega
  unfold shorten
  dsimp only
  split
  · exact ⟨m, s, rfl⟩
  rw [if_neg (by omega)]
  have hSpec := @Shortening.run_spec top _ ⟨m, s, 0⟩ hCount
  cases hRun : Shortening.run top ⟨m, s, 0⟩ (excessDigits top maxScale m s) with
  | none =>
    rw [hRun] at hSpec
    dsimp only at hSpec
    omega
  | some y =>
    rw [hRun] at hSpec
    obtain ⟨k, hk⟩ := hSpec
    have hFits := hk.fits
    have hScale := hk.scale_eq
    have hMantissa := hk.mantissa_eq
    dsimp only at hScale hMantissa
    have hRound : ∃ p t, y.round top = some (p, t) ∧ topWord p ≤ top := by
      unfold Shortening.round
      split
      · split
        · rename_i hNext
          exact ⟨_, _, rfl, hNext⟩
        · rename_i hLong
          rw [topWord_le_iff] at hLong
          rw [if_neg]
          · exact ⟨_, _, rfl, topWord_le_iff.mpr (by omega)⟩
          · intro hZero
            have hAll : k = s := by omega
            rw [hAll] at hMantissa
            omega
      · exact ⟨_, _, rfl, topWord_le_iff.mpr hFits⟩
    obtain ⟨p, t, hRound, hTop⟩ := hRound
    exact ⟨p, t, by simp [hRound, hTop]⟩

def toRat (x : WideDecimal) : ℚ := (x.mantissa : ℚ) / 10 ^ x.scale

theorem toRat_nonneg (x : WideDecimal) : 0 ≤ x.toRat := by
  unfold toRat
  positivity

/-- Unsigned, of 192 bits and fifty-seven places. -/
structure Working (x : WideDecimal) : Prop where
  negative_eq : x.negative = false
  mantissa_lt : x.mantissa < 2 ^ 192
  scale_le : x.scale ≤ 57

/-- The least mantissa that a product keeps when it drops digits before the fifty-seventh place. -/
def leastKept : Nat := 2 ^ 191 / 10

/-- No unit of the last place of `z` lies between it and the exact product. -/
structure IsProduct (x y z : WideDecimal) : Prop where
  working : Working z
  dropped : ∃ k, z.scale + k = x.scale + y.scale ∧
    Beside (x.mantissa * y.mantissa) (10 ^ k) z.mantissa ∧
    (x.mantissa * y.mantissa = 0 ∨ k = 0 ∨ z.scale = 57 ∨ leastKept ≤ z.mantissa)

section Product

variable {x y z : WideDecimal}

theorem isProduct_of_mul? (hx : Working x) (hy : Working y) (h : x.mul? y = some z) :
    IsProduct x y z := by
  unfold mul? at h
  split at h
  · rename_i hZero
    have hProduct : x.mantissa * y.mantissa = 0 := Nat.mul_eq_zero.mpr hZero
    cases h
    refine ⟨⟨rfl, by positivity, Nat.zero_le _⟩, x.scale + y.scale, Nat.zero_add _, ?_, .inl hProduct⟩
    rw [hProduct]
    exact .zero (by positivity)
  · have hSign : (x.negative != y.negative) = false := by rw [hx.negative_eq, hy.negative_eq]; rfl
    dsimp only at h
    split at h
    · rename_i hShort
      cases h
      have hBeside := dropDigits_beside (x.mantissa * y.mantissa) (x.scale + y.scale - 57)
      refine ⟨⟨hSign, ?_, min_le_right _ _⟩, x.scale + y.scale - 57, by dsimp only; omega, hBeside, ?_⟩
      · have hPow : 0 < 10 ^ (x.scale + y.scale - 57) := by positivity
        have hLe := Nat.le_mul_of_pos_right (2 ^ 192 - 1) hPow
        have := hBeside.above (N := 2 ^ 192 - 1) (by omega)
        dsimp only
        omega
      · dsimp only
        omega
    · obtain ⟨⟨m, s⟩, hShorten, hz⟩ := Option.map_eq_some_iff.mp h
      have hSpec := shortened_of_shorten hShorten
      cases hz
      obtain ⟨k, hScale, hBeside, hKept⟩ := hSpec.dropped
      exact ⟨⟨hSign, hSpec.fits, hSpec.scale_le⟩, k, hScale, hBeside, .inr hKept⟩

theorem toRat_mul_toRat (x y : WideDecimal) :
    x.toRat * y.toRat = ((x.mantissa * y.mantissa : Nat) : ℚ) / 10 ^ (x.scale + y.scale) := by
  unfold toRat
  rw [pow_add]
  push_cast
  field_simp

theorem exists_mul? (h : x.toRat * y.toRat < 2 ^ 191) : ∃ z, x.mul? y = some z := by
  rw [toRat_mul_toRat, div_lt_iff₀ (by positivity)] at h
  unfold mul?
  split
  · exact ⟨_, rfl⟩
  · dsimp only
    split
    · exact ⟨_, rfl⟩
    · obtain ⟨m, s, hShorten⟩ := @exists_shorten 5 57 (x.mantissa * y.mantissa) (x.scale + y.scale)
        (by exact_mod_cast h)
      rw [hShorten]
      exact ⟨_, rfl⟩

namespace IsProduct

theorem natCast_le {N : Nat} (h : IsProduct x y z) (hN : (N : ℚ) ≤ x.toRat * y.toRat) :
    (N : ℚ) ≤ z.toRat := by
  obtain ⟨k, hScale, hBeside, _⟩ := h.dropped
  rw [toRat_mul_toRat] at hN
  exact hBeside.natCast_le_div hScale hN

theorem le_natCast {N : Nat} (h : IsProduct x y z) (hN : x.toRat * y.toRat ≤ N) :
    z.toRat ≤ N := by
  obtain ⟨k, hScale, hBeside, _⟩ := h.dropped
  rw [toRat_mul_toRat] at hN
  exact hBeside.div_le_natCast hScale hN

theorem exact_or_near (h : IsProduct x y z) :
    z.toRat = x.toRat * y.toRat ∨ (z.scale = 57 ∨ leastKept ≤ z.mantissa) ∧
      |z.toRat - x.toRat * y.toRat| ≤ 1 / 10 ^ z.scale := by
  obtain ⟨k, hScale, hBeside, hKept⟩ := h.dropped
  rw [toRat_mul_toRat]
  rcases hKept with hZero | rfl | hKept
  · have hNothing : z.mantissa = 0 := Nat.le_zero.mp (hBeside.above (by omega))
    left
    unfold toRat
    rw [hZero, hNothing]
    simp
  · have hSame : z.mantissa = x.mantissa * y.mantissa :=
      le_antisymm (hBeside.above (by omega)) (hBeside.below (by omega))
    left
    unfold toRat
    rw [hSame, ← hScale, Nat.add_zero]
  · exact .inr ⟨hKept, hBeside.abs_sub_le hScale⟩

end IsProduct

end Product

end WideDecimal

end BondingCurve
