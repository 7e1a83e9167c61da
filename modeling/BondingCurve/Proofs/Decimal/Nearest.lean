import BondingCurve.Proofs.Decimal.Value

/-!
# The one rounding rule

A result that is not a decimal becomes the nearest multiple of `10 ^ -places`, a tie going to the
even one, with as many places as ninety-six bits and twenty-eight digits admit. As a relation
between rational numbers the rule is monotone, leaves decimals as they are, and so never carries a
value past a decimal; what is too large for it stays too large.
-/

namespace BondingCurve

/-- `q` is the integer nearest to `v`; of two, the even one. -/
def Nearest (v : ℚ) (q : Nat) : Prop := |v - q| ≤ 1 / 2 ∧ (|v - q| = 1 / 2 → q % 2 = 0)

namespace Nearest

variable {v w : ℚ} {p q : Nat}

theorem natCast (n : Nat) : Nearest n n := by
  constructor
  · norm_num
  · intro h
    norm_num at h

theorem bounds (h : Nearest v q) : (q : ℚ) - 1 / 2 ≤ v ∧ v ≤ q + 1 / 2 := by
  obtain ⟨hLow, hHigh⟩ := abs_le.mp h.1
  constructor <;> linarith

theorem mono (hp : Nearest v p) (hq : Nearest w q) (h : v ≤ w) : p ≤ q := by
  by_contra hLess
  have hStep : q + 1 ≤ p := by omega
  have hStepRat : (q : ℚ) + 1 ≤ p := by exact_mod_cast hStep
  obtain ⟨hpLow, _⟩ := hp.bounds
  obtain ⟨_, hqHigh⟩ := hq.bounds
  -- both are ties of one point between `q` and `q + 1`, but only one of these is even
  have hv : v = q + 1 / 2 := by linarith
  have hw : w = q + 1 / 2 := by linarith
  have hpq : (p : ℚ) = q + 1 := by linarith
  have hpEven : p % 2 = 0 := hp.2 (by rw [hv, hpq]; norm_num [abs_of_neg])
  have hqEven : q % 2 = 0 := hq.2 (by rw [hw]; norm_num [abs_of_pos])
  have hpqNat : p = q + 1 := by exact_mod_cast hpq
  omega

theorem unique (hp : Nearest v p) (hq : Nearest v q) : p = q :=
  Nat.le_antisymm (hp.mono hq le_rfl) (hq.mono hp le_rfl)

theorem le_of_natCast_le (hq : Nearest v q) (h : (p : ℚ) ≤ v) : p ≤ q := (natCast p).mono hq h

theorem le_of_le_natCast (hq : Nearest v q) (h : v ≤ p) : q ≤ p := hq.mono (natCast p) h

end Nearest

theorem nearest_nearestQuotient (m : Nat) {d : Nat} (hd : 0 < d) :
    Nearest ((m : ℚ) / d) (nearestQuotient m d) := by
  have hDivision := Nat.div_add_mod m d
  have hRemainder := Nat.mod_lt m hd
  unfold nearestQuotient
  generalize m / d = a at *
  generalize m % d = r at *
  have hdRat : (0 : ℚ) < d := by exact_mod_cast hd
  have hValue : (m : ℚ) / d = a + r / d := by
    have hSplit : (m : ℚ) = d * a + r := by exact_mod_cast hDivision.symm
    rw [hSplit, add_div, mul_div_cancel_left₀ _ hdRat.ne']
  have hLow : (0 : ℚ) ≤ r / d := by positivity
  have hHigh : (r : ℚ) / d < 1 := by
    rw [div_lt_one hdRat]
    exact_mod_cast hRemainder
  rw [hValue]
  split
  · rename_i hUp
    have hHalf : 1 / 2 ≤ (r : ℚ) / d := by
      rw [le_div_iff₀ hdRat]
      have : d ≤ 2 * r := by omega
      have : (d : ℚ) ≤ 2 * r := by exact_mod_cast this
      linarith
    have hDistance : |(a : ℚ) + r / d - (a + 1 : Nat)| = 1 - r / d := by
      push_cast
      rw [abs_of_nonpos (by linarith)]
      ring
    constructor
    · rw [hDistance]
      linarith
    · intro hTie
      have hEq : (r : ℚ) / d = 1 / 2 := by linarith
      have hEqNat : 2 * r = d := by
        rw [div_eq_iff hdRat.ne'] at hEq
        have : (2 : ℚ) * r = d := by linarith
        exact_mod_cast this
      omega
  · rename_i hDown
    have hHalf : (r : ℚ) / d ≤ 1 / 2 := by
      rw [div_le_iff₀ hdRat]
      have : 2 * r ≤ d := by omega
      have : (2 : ℚ) * r ≤ d := by exact_mod_cast this
      linarith
    have hDistance : |(a : ℚ) + r / d - a| = r / d := by
      rw [add_sub_cancel_left, abs_of_nonneg hLow]
    constructor
    · rw [hDistance]
      exact hHalf
    · intro hTie
      have hEq : (r : ℚ) / d = 1 / 2 := by linarith
      have hEqNat : 2 * r = d := by
        rw [div_eq_iff hdRat.ne'] at hEq
        have : (2 : ℚ) * r = d := by linarith
        exact_mod_cast this
      omega

theorem exists_nearest {v : ℚ} (hv : 0 ≤ v) : ∃ q, Nearest v q := by
  refine ⟨nearestQuotient v.num.natAbs v.den, ?_⟩
  have h := nearest_nearestQuotient v.num.natAbs v.pos
  have hAbs : ((v.num.natAbs : Nat) : ℤ) = v.num := Int.natAbs_of_nonneg (Rat.num_nonneg.mpr hv)
  have hNum : ((v.num.natAbs : Nat) : ℚ) = v.num := by rw [← Int.cast_natCast, hAbs]
  rwa [hNum, Rat.num_div_den] at h

/-- `v` rounded to `places` places is `r`, a mantissa of ninety-six bits. -/
def RoundsAt (places : Nat) (v r : ℚ) : Prop :=
  ∃ q : Nat, q < 2 ^ 96 ∧ Nearest (v * 10 ^ places) q ∧ r = q / 10 ^ places

/-- `v` needs more than ninety-six bits at `places` places. -/
def TooLongAt (places : Nat) (v : ℚ) : Prop := ∀ q, Nearest (v * 10 ^ places) q → 2 ^ 96 ≤ q

/-- `r` is the nonnegative `v`, rounded to the most places at which it fits. -/
def Rounds (v r : ℚ) : Prop :=
  ∃ places ≤ 28, RoundsAt places v r ∧ (places = 28 ∨ TooLongAt (places + 1) v)

def Representable (v : ℚ) : Prop := ∃ x : Magnitude, x.toRat = v

theorem RoundsAt.of_le {s t : Nat} {v r : ℚ} (h : RoundsAt t v r) (hv : 0 ≤ v) (hst : s ≤ t) :
    ∃ r', RoundsAt s v r' := by
  obtain ⟨q, hq, hNearest, _⟩ := h
  obtain ⟨p, hp⟩ := exists_nearest (v := v * 10 ^ s) (by positivity)
  have hLe : v * 10 ^ s ≤ v * 10 ^ t :=
    mul_le_mul_of_nonneg_left (pow_le_pow_right₀ (by norm_num) hst) hv
  exact ⟨p / 10 ^ s, p, Nat.lt_of_le_of_lt (hp.mono hNearest hLe) hq, hp, rfl⟩

theorem TooLongAt.not_roundsAt {t : Nat} {v r : ℚ} (h : TooLongAt t v) : ¬RoundsAt t v r := by
  rintro ⟨q, hq, hNearest, _⟩
  exact absurd (h q hNearest) (Nat.not_le.mpr hq)

theorem tooLongAt_of_natCast_le {t : Nat} {v : ℚ} (h : (2 : ℚ) ^ 96 ≤ v * 10 ^ t) :
    TooLongAt t v := by
  intro q hq
  exact hq.le_of_natCast_le (by exact_mod_cast h)

namespace Rounds

variable {v w r r' : ℚ}

theorem nonneg (h : Rounds v r) : 0 ≤ r := by
  obtain ⟨t, _, ⟨q, _, _, rfl⟩, _⟩ := h
  positivity

theorem lt_of_tooLongAt {s t : Nat} (hv : 0 ≤ v) (h : TooLongAt s v) (hr : RoundsAt t v r) :
    t < s := by
  by_contra hLess
  obtain ⟨y, hy⟩ := hr.of_le hv (Nat.le_of_not_lt hLess)
  exact h.not_roundsAt hy

theorem exists_of_fits {s : Nat} (hs : s ≤ 28) (h : RoundsAt s v r') :
    ∃ r, Rounds v r := by
  classical
  have hMost := Nat.findGreatest_spec (P := fun t => ∃ x, RoundsAt t v x) hs ⟨r', h⟩
  have hBound := Nat.findGreatest_le (P := fun t => ∃ x, RoundsAt t v x) 28
  have hNone : ∀ t, Nat.findGreatest (fun t => ∃ x, RoundsAt t v x) 28 < t → t ≤ 28 →
      ¬∃ x, RoundsAt t v x := fun t => Nat.findGreatest_is_greatest
  generalize Nat.findGreatest (fun t => ∃ x, RoundsAt t v x) 28 = t at *
  obtain ⟨x, hx⟩ := hMost
  refine ⟨x, t, hBound, hx, ?_⟩
  rcases Nat.eq_or_lt_of_le hBound with hEq | hLess
  · exact .inl hEq
  · right
    intro q hq
    by_contra hShort
    exact hNone (t + 1) (by omega) hLess ⟨q / 10 ^ (t + 1), q, Nat.not_le.mp hShort, hq, rfl⟩

theorem mono (hv : 0 ≤ v) (h : v ≤ w) (hr : Rounds v r) (hr' : Rounds w r') : r ≤ r' := by
  have hw : 0 ≤ w := hv.trans h
  obtain ⟨t, ht, ⟨q, hq, hNearest, rfl⟩, hMost⟩ := hr
  obtain ⟨t', ht', ⟨q', hq', hNearest', rfl⟩, hMost'⟩ := hr'
  -- the larger value never has more places
  have hPlaces : t' ≤ t := by
    by_contra hLess
    rcases hMost with hEq | hLong
    · omega
    · have hScaled : v * 10 ^ (t + 1) ≤ w * 10 ^ t' :=
        mul_le_mul h (pow_le_pow_right₀ (by norm_num) (by omega)) (by positivity) hw
      obtain ⟨p, hp⟩ := exists_nearest (v := v * 10 ^ (t + 1)) (by positivity)
      have hSmall := hp.mono hNearest' hScaled
      have hLarge := hLong p hp
      omega
  rcases Nat.eq_or_lt_of_le hPlaces with rfl | hLess
  · have hUnits := hNearest.mono hNearest' (mul_le_mul_of_nonneg_right h (by positivity))
    exact div_le_div_of_nonneg_right (by exact_mod_cast hUnits) (by positivity)
  · -- with fewer places the larger value is already beyond the reach of the smaller one
    have hLong : TooLongAt (t' + 1) w := hMost'.resolve_left (by omega)
    obtain ⟨p, hp⟩ := exists_nearest (v := w * 10 ^ (t' + 1)) (by positivity)
    have hpLarge : (79228162514264337593543950336 : ℚ) ≤ p := by exact_mod_cast hLong p hp
    have hpLow := hp.bounds.1
    have hqLow := hNearest'.bounds.2
    rw [pow_succ] at hpLow
    have hqLarge : (7922816251426433759354395033 : ℚ) < q' := by linarith
    have hqLargeNat : 7922816251426433759354395033 < q' := by exact_mod_cast hqLarge
    have hUnits : q ≤ 10 * q' := by
      norm_num at hq
      omega
    have hPow : (10 : ℚ) ^ (t' + 1) ≤ 10 ^ t := pow_le_pow_right₀ (by norm_num) hLess
    calc
      (q : ℚ) / 10 ^ t ≤ q / 10 ^ (t' + 1) :=
        div_le_div_of_nonneg_left (by positivity) (by positivity) hPow
      _ ≤ (10 * q' : Nat) / 10 ^ (t' + 1) :=
        div_le_div_of_nonneg_right (by exact_mod_cast hUnits) (by positivity)
      _ = q' / 10 ^ t' := by
        rw [pow_succ]
        push_cast
        field_simp

theorem exists_of_le (hv : 0 ≤ v) (h : v ≤ w) (hw : Rounds w r') : ∃ r, Rounds v r := by
  obtain ⟨t, ht, ⟨q, hq, hNearest, rfl⟩, _⟩ := hw
  obtain ⟨p, hp⟩ := exists_nearest (v := v * 10 ^ t) (by positivity)
  have hUnits := hp.mono hNearest (mul_le_mul_of_nonneg_right h (by positivity))
  exact exists_of_fits ht ⟨p, Nat.lt_of_le_of_lt hUnits hq, hp, rfl⟩

theorem eq_of_representable (hv : Representable v) (h : Rounds v r) : r = v := by
  obtain ⟨x, rfl⟩ := hv
  obtain ⟨t, ht, ⟨q, hq, hNearest, rfl⟩, hMost⟩ := h
  have hSelf : RoundsAt x.scale x.toRat x.toRat := by
    refine ⟨x.mantissa, x.mantissa_lt, ?_, rfl⟩
    have hUnits : x.toRat * 10 ^ x.scale = x.mantissa := div_mul_cancel₀ _ (by positivity)
    rw [hUnits]
    exact .natCast _
  have hPlaces : x.scale ≤ t := by
    rcases hMost with rfl | hLong
    · exact x.scale_le
    · by_contra hLess
      have := lt_of_tooLongAt x.toRat_nonneg hLong hSelf
      omega
  have hUnits : x.toRat * 10 ^ t = (x.mantissa * 10 ^ (t - x.scale) : Nat) := by
    have hPow : (10 : ℚ) ^ t = 10 ^ x.scale * 10 ^ (t - x.scale) := by
      rw [← pow_add, Nat.add_sub_cancel' hPlaces]
    unfold Magnitude.toRat
    rw [hPow]
    push_cast
    field_simp
  rw [hUnits] at hNearest
  rw [hNearest.unique (.natCast _), ← hUnits, mul_div_cancel_right₀ _ (by positivity)]

end Rounds

theorem Representable.rounds {v : ℚ} (hv : Representable v) : Rounds v v := by
  obtain ⟨x, rfl⟩ := hv
  have hUnits : x.toRat * 10 ^ x.scale = x.mantissa := div_mul_cancel₀ _ (by positivity)
  have hNearest : Nearest (x.toRat * 10 ^ x.scale) x.mantissa := by
    rw [hUnits]
    exact .natCast _
  obtain ⟨r, hr⟩ := Rounds.exists_of_fits x.scale_le
    ⟨x.mantissa, x.mantissa_lt, hNearest, rfl⟩
  have hEq := hr.eq_of_representable ⟨x, rfl⟩
  rwa [hEq] at hr

namespace Rounds

variable {v r : ℚ}

theorem not_of_tooLong (hv : 0 ≤ v) (h : (2 : ℚ) ^ 96 ≤ v) : ¬Rounds v r := by
  rintro ⟨t, _, hRounds, _⟩
  obtain ⟨x, hx⟩ := hRounds.of_le hv (Nat.zero_le t)
  exact (tooLongAt_of_natCast_le (by simpa using h)).not_roundsAt hx

theorem natCast_le {N : Nat} (h : Rounds v r) (hN : (N : ℚ) ≤ v) : (N : ℚ) ≤ r := by
  obtain ⟨t, _, ⟨q, _, hNearest, rfl⟩, _⟩ := h
  have hUnits : N * 10 ^ t ≤ q := by
    apply hNearest.le_of_natCast_le
    push_cast
    exact mul_le_mul_of_nonneg_right hN (by positivity)
  rw [le_div_iff₀ (by positivity)]
  exact_mod_cast hUnits

theorem le_natCast {N : Nat} (h : Rounds v r) (hN : v ≤ N) : r ≤ N := by
  obtain ⟨t, _, ⟨q, _, hNearest, rfl⟩, _⟩ := h
  have hUnits : q ≤ N * 10 ^ t := by
    apply hNearest.le_of_le_natCast
    push_cast
    exact mul_le_mul_of_nonneg_right hN (by positivity)
  rw [div_le_iff₀ (by positivity)]
  exact_mod_cast hUnits

end Rounds

end BondingCurve
