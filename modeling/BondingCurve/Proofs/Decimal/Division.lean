import BondingCurve.Proofs.Decimal.Arithmetic
import Mathlib.Tactic.LinearCombination

/-!
# Quotients are rounded once

The long division carries the exact quotient along as `quotient + remainder / divisor` in units of
`10 ^ (room - 28)`, so wherever it stops the digits written are the rounding of the exact value.
-/

namespace BondingCurve

theorem Nearest.of_distance_lt {v : ℚ} {q : Nat} (h : |v - q| < 1 / 2) : Nearest v q :=
  ⟨h.le, fun hTie => absurd hTie h.ne⟩

theorem Rounds.not_of_tooLongAt_zero {v r : ℚ} (hv : 0 ≤ v) (h : TooLongAt 0 v) : ¬Rounds v r := by
  rintro ⟨t, _, hRounds, _⟩
  obtain ⟨x, hx⟩ := hRounds.of_le hv (Nat.zero_le t)
  exact h.not_roundsAt hx

namespace Decimal

/-- A written quotient is the rounding of `v`; without one, `v` has no rounding. -/
def Written (v : ℚ) : Option (Nat × Nat) → Prop
  | some (m, s) => m < 2 ^ 96 ∧ s ≤ 28 ∧ Rounds v ((m : ℚ) / 10 ^ s)
  | none => ∀ r, ¬Rounds v r

variable {v : ℚ} {quotient room scale : Nat}

theorem nonneg_of_mul_pow (h : 0 ≤ v * 10 ^ scale) : 0 ≤ v :=
  nonneg_of_mul_nonneg_left h (by positivity)

theorem mul_pow_pred (h : scale ≠ 0) : v * 10 ^ (scale - 1) = v * 10 ^ scale / 10 := by
  have hPow : (10 : ℚ) ^ scale = 10 ^ (scale - 1) * 10 := by
    rw [← pow_succ, Nat.sub_add_cancel (Nat.pos_of_ne_zero h)]
  rw [hPow]
  field_simp

/-- With room for all its places, a value is its quotient. -/
theorem mul_pow_of_room_le {w : ℚ} (hv : v * 10 ^ 28 = w * 10 ^ room) (h : room ≤ 28) :
    v * 10 ^ (28 - room) = w := by
  have hPow : (10 : ℚ) ^ 28 = 10 ^ (28 - room) * 10 ^ room := by
    rw [← pow_add, Nat.sub_add_cancel h]
  rw [hPow, ← mul_assoc] at hv
  exact mul_right_cancel₀ (by positivity) hv

theorem eq_mul_pow_of_le_room {w : ℚ} (hv : v * 10 ^ 28 = w * 10 ^ room) (h : 28 ≤ room) :
    v = w * 10 ^ (room - 28) := by
  have hPow : (10 : ℚ) ^ room = 10 ^ (room - 28) * 10 ^ 28 := by
    rw [← pow_add, Nat.sub_add_cancel h]
  rw [hPow, ← mul_assoc] at hv
  exact mul_right_cancel₀ (by positivity) hv

theorem not_rounds_of_le_room {w : ℚ} {k : Nat} {r : ℚ} (hv : v * 10 ^ 28 = w * 10 ^ room)
    (h : 28 + k ≤ room) (hLong : 2 ^ 96 ≤ w * 10 ^ k) : ¬Rounds v r := by
  have hwNonneg : 0 ≤ w := nonneg_of_mul_pow ((by positivity : (0 : ℚ) ≤ 2 ^ 96).trans hLong)
  have hPow : (10 : ℚ) ^ k ≤ 10 ^ (room - 28) := pow_le_pow_right₀ (by norm_num) (by omega)
  have hLarge : (2 : ℚ) ^ 96 ≤ v := by
    rw [eq_mul_pow_of_le_room hv (by omega)]
    exact hLong.trans (mul_le_mul_of_nonneg_left hPow hwNonneg)
  exact Rounds.not_of_tooLong ((by positivity : (0 : ℚ) ≤ 2 ^ 96).trans hLarge) hLarge

theorem written_of_nearest {m : Nat} (hm : m < 2 ^ 96) (hScale : scale ≤ 28)
    (hNearest : Nearest (v * 10 ^ scale) m) (hMost : scale = 28 ∨ TooLongAt (scale + 1) v) :
    Written v (some (m, scale)) :=
  ⟨hm, hScale, scale, hScale, ⟨m, hm, hNearest, rfl⟩, hMost⟩

theorem written_of_exact {m : Nat} (hm : m < 2 ^ 96) (hScale : scale ≤ 28)
    (hValue : v * 10 ^ scale = m) : Written v (some (m, scale)) := by
  have hSame : (m : ℚ) / 10 ^ scale = v := by
    rw [← hValue, mul_div_cancel_right₀ _ (by positivity)]
  refine ⟨hm, hScale, ?_⟩
  rw [hSame]
  exact Representable.rounds ⟨⟨m, scale, hm, hScale⟩, hSame⟩

theorem written_padQuotient (hq : quotient < 2 ^ 96) (hv : v * 10 ^ 28 = quotient * 10 ^ room) :
    Written v (padQuotient quotient room) := by
  unfold padQuotient
  split
  · rename_i hRoom
    exact written_of_exact hq (by omega) (mul_pow_of_room_le hv hRoom)
  · rename_i hRoom
    have hWhole := eq_mul_pow_of_le_room hv (by omega)
    dsimp only
    split
    · rename_i hFits
      exact written_of_exact hFits (Nat.zero_le _) (by simpa using hWhole)
    · rename_i hLong
      intro r
      apply not_rounds_of_le_room hv (k := room - 28) (by omega)
      exact_mod_cast Nat.not_lt.mp hLong

theorem written_shedDigit {sticky : Bool} (hv : 0 ≤ v) (hScale : scale ≤ 28)
    (hLong : TooLongAt scale v) (hBound : quotient / 10 + 1 < 2 ^ 96)
    (hNearest : scale ≠ 0 → Nearest (v * 10 ^ (scale - 1))
      (if quotient % 10 > 5 ∨ (quotient % 10 = 5 ∧ (sticky ∨ quotient / 10 % 2 = 1))
        then quotient / 10 + 1 else quotient / 10)) :
    Written v (shedDigit quotient scale sticky) := by
  unfold shedDigit
  split
  · rename_i hZero
    subst hZero
    intro r
    exact Rounds.not_of_tooLongAt_zero hv hLong
  · rename_i hNonzero
    have hNext : scale - 1 + 1 = scale := Nat.sub_add_cancel (Nat.pos_of_ne_zero hNonzero)
    apply written_of_nearest
    · split <;> omega
    · omega
    · exact hNearest hNonzero
    · right
      rwa [hNext]

/-- The last digit of `quotient` gives way to the fraction `f` behind it. -/
theorem nearest_shed {q : Nat} {f : ℚ} {sticky : Bool} (hf : 0 ≤ f) (hf' : f < 1)
    (hSticky : sticky = true ↔ f ≠ 0) :
    Nearest (((q : ℚ) + f) / 10)
      (if q % 10 > 5 ∨ (q % 10 = 5 ∧ (sticky ∨ q / 10 % 2 = 1)) then q / 10 + 1 else q / 10) := by
  have hSplit : (q : ℚ) = 10 * (q / 10 : Nat) + (q % 10 : Nat) := by
    exact_mod_cast (Nat.div_add_mod q 10).symm
  have hDigit : q % 10 < 10 := Nat.mod_lt q (by decide)
  generalize q / 10 = a at *
  generalize q % 10 = d at *
  rw [hSplit]
  split
  · rename_i hUp
    have hDistance : |(10 * (a : ℚ) + d + f) / 10 - (a + 1 : Nat)| = 1 - (d + f) / 10 := by
      have hdRat : (d : ℚ) ≤ 9 := by exact_mod_cast Nat.le_of_lt_succ hDigit
      push_cast
      rw [abs_of_nonpos (by linarith)]
      ring
    rcases hUp with hLarge | ⟨hFive, hRest⟩
    · apply Nearest.of_distance_lt
      have hdRat : (6 : ℚ) ≤ d := by exact_mod_cast hLarge
      rw [hDistance]
      linarith
    · have hdRat : (d : ℚ) = 5 := by exact_mod_cast hFive
      constructor
      · rw [hDistance]
        linarith
      · intro hTie
        have hZero : f = 0 := by linarith
        rcases hRest with hMore | hOdd
        · exact absurd hZero (hSticky.mp hMore)
        · omega
  · rename_i hDown
    rw [not_or] at hDown
    have hDistance : |(10 * (a : ℚ) + d + f) / 10 - a| = (d + f) / 10 := by
      have hNonneg : (0 : ℚ) ≤ d := Nat.cast_nonneg d
      rw [abs_of_nonneg (by linarith)]
      ring
    by_cases hFive : d = 5
    · have hNone : ¬(sticky = true) ∧ ¬(a % 2 = 1) := by
        have h := hDown.2
        simp only [hFive, true_and, not_or] at h
        exact h
      have hZero : f = 0 := by
        by_contra hf0
        exact hNone.1 (hSticky.mpr hf0)
      constructor
      · rw [hDistance, hZero, hFive]
        norm_num
      · intro _
        omega
    · apply Nearest.of_distance_lt
      have hdRat : (d : ℚ) ≤ 4 := by
        have : d ≤ 4 := by omega
        exact_mod_cast this
      rw [hDistance]
      linarith

theorem nearestQuotient_mul_add {divisor remainder : Nat} (hDivisor : 0 < divisor)
    (hRemainder : remainder < divisor) :
    nearestQuotient (quotient * divisor + remainder) divisor =
      if 2 * remainder > divisor ∨ (2 * remainder = divisor ∧ quotient % 2 = 1)
        then quotient + 1 else quotient := by
  have hDiv : (quotient * divisor + remainder) / divisor = quotient := by
    rw [mul_comm, Nat.mul_add_div hDivisor, Nat.div_eq_of_lt hRemainder, Nat.add_zero]
  have hMod : (quotient * divisor + remainder) % divisor = remainder := by
    rw [mul_comm, Nat.mul_add_mod, Nat.mod_eq_of_lt hRemainder]
  unfold nearestQuotient
  rw [hDiv, hMod]

/-- Rounding up to `2 ^ 96` leaves a mantissa whose last digit goes. -/
theorem written_shedFull (hNonneg : 0 ≤ v) (hScale : scale ≤ 28)
    (hNearest : Nearest (v * 10 ^ scale) (2 ^ 96)) : Written v (shedDigit (2 ^ 96) scale true) := by
  apply written_shedDigit hNonneg hScale
  · intro p hp
    rw [hp.unique hNearest]
  · decide
  · intro hNonzero
    obtain ⟨hLow, hHigh⟩ := hNearest.bounds
    have hResult : (if (2 ^ 96 : Nat) % 10 > 5 ∨
        ((2 ^ 96 : Nat) % 10 = 5 ∧ (true = true ∨ (2 ^ 96 : Nat) / 10 % 2 = 1))
        then (2 ^ 96 : Nat) / 10 + 1 else (2 ^ 96 : Nat) / 10) = 7922816251426433759354395034 := by
      decide
    rw [mul_pow_pred hNonzero, hResult]
    apply Nearest.of_distance_lt
    rw [abs_lt]
    norm_num at hLow hHigh ⊢
    constructor <;> linarith

theorem written_roundQuotient {divisor remainder : Nat} (hDivisor : 0 < divisor)
    (hRemainder : remainder < divisor) (hq : quotient < 2 ^ 96) (hScale : scale ≤ 28)
    (hv : v * 10 ^ scale = quotient + (remainder : ℚ) / divisor)
    (hMost : scale = 28 ∨ 2 ^ 96 ≤ quotient * 10) :
    Written v (roundQuotient divisor quotient remainder scale) := by
  have hDivisorRat : (0 : ℚ) < divisor := by exact_mod_cast hDivisor
  have hNearest := nearest_nearestQuotient (quotient * divisor + remainder) hDivisor
  have hValue : ((quotient * divisor + remainder : Nat) : ℚ) / divisor = v * 10 ^ scale := by
    rw [hv]
    push_cast
    field_simp
  rw [nearestQuotient_mul_add hDivisor hRemainder, hValue] at hNearest
  have hNext : scale = 28 ∨ TooLongAt (scale + 1) v := by
    apply hMost.imp_right
    intro hLong
    apply tooLongAt_of_natCast_le
    have hLongRat : (2 : ℚ) ^ 96 ≤ quotient * 10 := by exact_mod_cast hLong
    have hFraction : (0 : ℚ) ≤ remainder / divisor := by positivity
    rw [pow_succ (10 : ℚ) scale, ← mul_assoc, hv]
    linarith
  unfold roundQuotient
  split
  · rename_i hUp
    rw [if_pos hUp] at hNearest
    split
    · rename_i hFits
      exact written_of_nearest hFits hScale hNearest hNext
    · rename_i hFull
      have hFullEq : quotient + 1 = 2 ^ 96 := by omega
      rw [hFullEq] at hNearest ⊢
      have hNonneg : 0 ≤ v * 10 ^ scale := by
        rw [hv]
        positivity
      exact written_shedFull (nonneg_of_mul_pow hNonneg) hScale hNearest
  · rename_i hDown
    rw [if_neg hDown] at hNearest
    exact written_of_nearest hq hScale hNearest hNext

theorem extension_spec (quotient room n : Nat) :
    quotient < 2 ^ 96 → quotient * 10 ^ extension quotient room n < 2 ^ 96 ∧
      (extension quotient room n < n → extension quotient room n + 1 ≤ room →
        2 ^ 96 ≤ quotient * 10 ^ (extension quotient room n + 1)) := by
  intro hq
  induction n with
  | zero => exact ⟨by simpa [extension] using hq, fun h => absurd h (Nat.not_lt_zero _)⟩
  | succ n ih =>
    unfold extension
    split
    · rename_i h
      exact ⟨h.2, fun hLess => absurd hLess (Nat.lt_irrefl _)⟩
    · rename_i h
      refine ⟨ih.1, fun hLess hRoom => ?_⟩
      rcases Nat.lt_succ_iff_lt_or_eq.mp hLess with hBelow | hEq
      · exact ih.2 hBelow hRoom
      · rw [hEq] at hRoom ⊢
        by_contra hShort
        exact h ⟨hRoom, Nat.not_le.mp hShort⟩

theorem extension_le (quotient room n : Nat) : extension quotient room n ≤ n := by
  induction n with
  | zero => exact Nat.le_refl _
  | succ n ih =>
    unfold extension
    split
    · exact Nat.le_refl _
    · exact Nat.le_succ_of_le ih

/-- Writing `x` more digits of a quotient leaves the value as it is. -/
theorem extended_value {divisor : Nat} (hDivisor : 0 < divisor) (quotient remainder : Nat) {room x : Nat}
    (hx : x ≤ room) :
    (((quotient * 10 ^ x + remainder * 10 ^ x / divisor : Nat) : ℚ) +
      ((remainder * 10 ^ x % divisor : Nat) : ℚ) / divisor) * 10 ^ (room - x) =
      (quotient + (remainder : ℚ) / divisor) * 10 ^ room := by
  have hDivisorRat : (0 : ℚ) < divisor := by exact_mod_cast hDivisor
  have hSplit : ((remainder * 10 ^ x : Nat) : ℚ) =
      divisor * (remainder * 10 ^ x / divisor : Nat) + (remainder * 10 ^ x % divisor : Nat) := by
    exact_mod_cast (Nat.div_add_mod _ _).symm
  have hPow : (10 : ℚ) ^ room = 10 ^ x * 10 ^ (room - x) := by
    rw [← pow_add, Nat.add_sub_cancel' hx]
  rw [hPow, Nat.cast_add, Nat.cast_mul, Nat.cast_pow]
  generalize remainder * 10 ^ x / divisor = t at *
  generalize remainder * 10 ^ x % divisor = u at *
  push_cast at hSplit ⊢
  field_simp
  linarith

theorem extended_lt {divisor remainder : Nat} (hDivisor : 0 < divisor) (hRemainder : remainder < divisor)
    (hq : quotient < 2 ^ 96) :
    quotient * 10 ^ extension quotient room 9 + remainder * 10 ^ extension quotient room 9 / divisor
      < 2 ^ 96 + 10 ^ 9 := by
  obtain ⟨hBefore, _⟩ := extension_spec quotient room 9 hq
  have hPow : 10 ^ extension quotient room 9 ≤ 10 ^ 9 :=
    Nat.pow_le_pow_right (by decide) (extension_le quotient room 9)
  generalize extension quotient room 9 = x at *
  have hDigits : remainder * 10 ^ x / divisor < 10 ^ x := by
    rw [Nat.div_lt_iff_lt_mul hDivisor, mul_comm]
    exact Nat.mul_lt_mul_of_pos_left hRemainder (by positivity)
  omega

/-- An inexact quotient that is too long loses its last digit. -/
theorem written_shedRemainder {divisor remainder : Nat} (hDivisor : 0 < divisor)
    (hRemainder : remainder < divisor) (hv : v * 10 ^ scale = quotient + (remainder : ℚ) / divisor)
    (hScale : scale ≤ 28) (hLong : 2 ^ 96 ≤ quotient) (hBound : quotient / 10 + 1 < 2 ^ 96) :
    Written v (shedDigit quotient scale (remainder != 0)) := by
  have hDivisorRat : (0 : ℚ) < divisor := by exact_mod_cast hDivisor
  have hFraction : (0 : ℚ) ≤ (remainder : ℚ) / divisor := by positivity
  have hNonneg : 0 ≤ v * 10 ^ scale := by
    rw [hv]
    positivity
  apply written_shedDigit (nonneg_of_mul_pow hNonneg) hScale
  · apply tooLongAt_of_natCast_le
    have hLongRat : (2 : ℚ) ^ 96 ≤ quotient := by exact_mod_cast hLong
    rw [hv]
    linarith
  · exact hBound
  · intro hNonzero
    have hFractionLt : (remainder : ℚ) / divisor < 1 := by
      rw [div_lt_one hDivisorRat]
      exact_mod_cast hRemainder
    rw [mul_pow_pred hNonzero, hv]
    apply nearest_shed hFraction hFractionLt
    simp [hDivisorRat.ne']

theorem map_fst_map_pair {α β : Type} (o : Option α) (b : β) : (o.map (·, b)).map Prod.fst = o := by
  cases o <;> rfl

theorem written_longDivision {divisor remainder : Nat} (extended : Bool) (hDivisor : 0 < divisor)
    (hRemainder : remainder < divisor) (hq : quotient < 2 ^ 96)
    (hv : v * 10 ^ 28 = (quotient + (remainder : ℚ) / divisor) * 10 ^ room) :
    Written v ((longDivision divisor quotient remainder room extended).map Prod.fst) := by
  fun_induction longDivision divisor quotient remainder room extended with
  | case1 quotient room extended =>
    rw [map_fst_map_pair]
    apply written_padQuotient hq
    rw [hv, Nat.cast_zero, zero_div, add_zero]
  | case2 quotient remainder room extended hInexact x hOver =>
    -- even the next digit leaves the scale negative, so the quotient is out of range
    intro r
    obtain ⟨_, hNext⟩ := extension_spec quotient room 9 hq
    have hLong := hNext hOver.1 (by omega)
    apply not_rounds_of_le_room hv (k := x + 1) (by omega)
    have hLongRat : (2 : ℚ) ^ 96 ≤ quotient * 10 ^ (x + 1) := by exact_mod_cast hLong
    have hFraction : (0 : ℚ) ≤ remainder / divisor := by positivity
    exact hLongRat.trans (mul_le_mul_of_nonneg_right (by linarith) (by positivity))
  | case3 quotient remainder room extended hInexact x hRange hZero =>
    rw [map_fst_map_pair]
    have hRoom : room ≤ 28 := by omega
    apply written_roundQuotient hDivisor hRemainder hq (by omega) (mul_pow_of_room_le hv hRoom)
    rcases Nat.eq_zero_or_pos room with hNone | hSome
    · left
      omega
    · right
      obtain ⟨_, hNext⟩ := extension_spec quotient room 9 hq
      have hx : extension quotient room 9 = 0 := hZero
      rw [hx] at hNext
      simpa using hNext (by decide) (by omega)
  | case4 quotient remainder room extended hInexact x hRange hNonzero q r hFits ih =>
    have hLess : remainder * 10 ^ x % divisor < divisor := Nat.mod_lt _ hDivisor
    apply ih hLess hFits
    rw [hv]
    exact (extended_value hDivisor quotient remainder (extension_le_room quotient room 9)).symm
  | case5 quotient remainder room extended hInexact x hRange hNonzero q r hLong hRoom =>
    rw [map_fst_map_pair]
    rw [← extended_value hDivisor quotient remainder (extension_le_room quotient room 9)] at hv
    have hBound : q < 2 ^ 96 + 10 ^ 9 := extended_lt hDivisor hRemainder hq
    exact written_shedRemainder hDivisor (Nat.mod_lt _ hDivisor) (mul_pow_of_room_le hv hRoom) (by omega)
      (Nat.not_lt.mp hLong) (by omega)
  | case6 quotient remainder room extended hInexact x hRange hNonzero q hLong hRoom =>
    intro s
    rw [← extended_value hDivisor quotient remainder (extension_le_room quotient room 9)] at hv
    apply not_rounds_of_le_room hv (k := 0) (by omega)
    have hLongRat : (2 : ℚ) ^ 96 ≤ q := by exact_mod_cast Nat.not_lt.mp hLong
    rw [pow_zero, mul_one]
    exact hLongRat.trans (le_add_of_nonneg_right (by positivity))

/-- Shedding zeros keeps the value and makes neither part larger. -/
theorem shedZeros_spec (digits twos n : Nat) (x : Nat × Nat) :
    (shedZeros digits twos n x).1 ≤ x.1 ∧ (shedZeros digits twos n x).2 ≤ x.2 ∧
      ((shedZeros digits twos n x).1 : ℚ) / 10 ^ (shedZeros digits twos n x).2 = x.1 / 10 ^ x.2 := by
  induction n generalizing x with
  | zero => exact ⟨Nat.le_refl _, Nat.le_refl _, rfl⟩
  | succ n ih =>
    obtain ⟨m, s⟩ := x
    unfold shedZeros
    split
    · rename_i h
      obtain ⟨_, hRoom, hZeros⟩ := h
      obtain ⟨hMantissa, hScale, hValue⟩ := ih (m / 10 ^ digits, s - digits)
      refine ⟨hMantissa.trans (Nat.div_le_self _ _), hScale.trans (Nat.sub_le _ _), ?_⟩
      rw [hValue]
      have hExact : (m : ℚ) = (m / 10 ^ digits : Nat) * 10 ^ digits := by
        exact_mod_cast (Nat.div_mul_cancel (Nat.dvd_of_mod_eq_zero hZeros)).symm
      have hPow : (10 : ℚ) ^ s = 10 ^ (s - digits) * 10 ^ digits := by
        rw [← pow_add, Nat.sub_add_cancel hRoom]
      change ((m / 10 ^ digits : Nat) : ℚ) / 10 ^ (s - digits) = m / 10 ^ s
      rw [hExact, hPow, mul_div_mul_right _ _ (by positivity)]
    · exact ⟨Nat.le_refl _, Nat.le_refl _, rfl⟩

theorem trimQuotient_spec (x : Nat × Nat) :
    (trimQuotient x).1 ≤ x.1 ∧ (trimQuotient x).2 ≤ x.2 ∧
      ((trimQuotient x).1 : ℚ) / 10 ^ (trimQuotient x).2 = x.1 / 10 ^ x.2 := by
  obtain ⟨hMantissa₁, hScale₁, hValue₁⟩ := shedZeros_spec 8 32 3 x
  obtain ⟨hMantissa₂, hScale₂, hValue₂⟩ := shedZeros_spec 4 4 1 (shedZeros 8 32 3 x)
  obtain ⟨hMantissa₃, hScale₃, hValue₃⟩ := shedZeros_spec 2 2 1 (shedZeros 4 4 1 (shedZeros 8 32 3 x))
  obtain ⟨hMantissa₄, hScale₄, hValue₄⟩ :=
    shedZeros_spec 1 1 1 (shedZeros 2 2 1 (shedZeros 4 4 1 (shedZeros 8 32 3 x)))
  unfold trimQuotient
  refine ⟨by omega, by omega, ?_⟩
  rw [hValue₄, hValue₃, hValue₂, hValue₁]

theorem toRat_div_toRat {x y : Decimal} (hy : y.mantissa ≠ 0) :
    |x.toRat / y.toRat| * 10 ^ 28 = ((x.mantissa / y.mantissa : Nat) +
      ((x.mantissa % y.mantissa : Nat) : ℚ) / y.mantissa) * 10 ^ (28 + y.scale - x.scale) := by
  have hPow : (10 : ℚ) ^ (28 + y.scale - x.scale) * 10 ^ x.scale = 10 ^ 28 * 10 ^ y.scale := by
    rw [← pow_add, ← pow_add, Nat.sub_add_cancel (by have := x.scale_le; omega)]
  have hSplit : (x.mantissa : ℚ) = y.mantissa * (x.mantissa / y.mantissa : Nat) +
      (x.mantissa % y.mantissa : Nat) := by
    exact_mod_cast (Nat.div_add_mod _ _).symm
  have hyRat : (0 : ℚ) < y.mantissa := by exact_mod_cast Nat.pos_of_ne_zero hy
  have hQuotient : ((x.mantissa / y.mantissa : Nat) : ℚ) +
      ((x.mantissa % y.mantissa : Nat) : ℚ) / y.mantissa = x.mantissa / y.mantissa := by
    rw [eq_div_iff hyRat.ne', add_mul, div_mul_cancel₀ _ hyRat.ne']
    linarith
  rw [hQuotient, abs_div, abs_toRat, abs_toRat]
  unfold Magnitude.toRat
  rw [div_div_div_eq, div_mul_eq_mul_div, div_mul_eq_mul_div, div_eq_div_iff (by positivity) (by positivity)]
  linear_combination (-(x.mantissa : ℚ) * y.mantissa) * hPow

theorem computes_div? {x y : Decimal} (hy : y.toRat ≠ 0) : Computes (x.toRat / y.toRat) (x.div? y) := by
  have hyMantissa : y.mantissa ≠ 0 := mt toRat_eq_zero_iff.mpr hy
  have hWritten := written_longDivision false (Nat.pos_of_ne_zero hyMantissa)
    (Nat.mod_lt x.mantissa (Nat.pos_of_ne_zero hyMantissa))
    (Nat.lt_of_le_of_lt (Nat.div_le_self x.mantissa y.mantissa) x.mantissa_lt) (toRat_div_toRat hyMantissa)
  unfold div?
  rw [if_neg hyMantissa]
  split
  · rename_i hx
    rw [toRat_eq_zero_iff.mpr hx, zero_div]
    exact roundsSigned_zero
  · rename_i hx
    have hSign : x.toRat / y.toRat < 0 ↔ (x.negative != y.negative) = true := by
      rw [← mul_neg_iff_sign hx hyMantissa, div_neg_iff, mul_neg_iff]
    cases hDivision : longDivision y.mantissa (x.mantissa / y.mantissa) (x.mantissa % y.mantissa)
      (28 + y.scale - x.scale) false with
    | none =>
      rw [hDivision] at hWritten
      exact hWritten
    | some result =>
      obtain ⟨⟨m, s⟩, extended⟩ := result
      rw [hDivision] at hWritten
      obtain ⟨hm, hs, hRounds⟩ := hWritten
      -- trimmed or not, the digits stand for the same value and still fit
      have hTrim : ∃ m' s', (if extended then trimQuotient (m, s) else (m, s)) = (m', s') ∧
          m' < 2 ^ 96 ∧ s' ≤ 28 ∧ (m' : ℚ) / 10 ^ s' = m / 10 ^ s := by
        cases extended with
        | false => exact ⟨m, s, rfl, hm, hs, rfl⟩
        | true =>
          obtain ⟨hMantissa, hScale, hValue⟩ := trimQuotient_spec (m, s)
          exact ⟨_, _, rfl, Nat.lt_of_le_of_lt hMantissa hm, hScale.trans hs, hValue⟩
      obtain ⟨m', s', hWhole, hm', hs', hValue⟩ := hTrim
      have hFits : Magnitude.Fits |x.toRat / y.toRat| (Magnitude.of? m' s') := by
        unfold Magnitude.of?
        rw [dif_pos ⟨hm', hs'⟩]
        change Rounds _ ((m' : ℚ) / 10 ^ s')
        rwa [hValue]
      have hComputes := hFits.computes (f := (·.signed (x.negative != y.negative))) (by
        intro z
        rw [toRat_signed]
        simp [hSign])
      rw [Option.bind_eq_bind, Option.bind_some]
      dsimp only
      rw [hWhole]
      dsimp only
      cases hOf : Magnitude.of? m' s' with
      | none => rwa [hOf] at hComputes
      | some z => rwa [hOf] at hComputes

theorem computes_div?_hundred (x : Decimal) : Computes (x.toRat / 100) (x.div? hundred) := by
  have hNonzero : hundred.toRat ≠ 0 := by
    rw [toRat_hundred]
    norm_num
  have hComputes := computes_div? (x := x) hNonzero
  rwa [toRat_hundred] at hComputes

end Decimal

end BondingCurve
