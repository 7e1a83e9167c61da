import BondingCurve.Decimal.SquareRoot
import BondingCurve.Proofs.Decimal.Power

/-!
# What the value of a decimal decides

A value has one shortest written form, so cutting or rounding it to amounts gives the same digits
however it was written. Sums, differences, products, quotients and roots have a value, or none,
that depends on the values of the operands only; powers do too, except above exponent 1023 and
between zero and two.
-/

namespace BondingCurve

namespace Magnitude

variable {x y : Magnitude}

theorem scale_dropZeros {n : Nat} (h : x.scale ≤ n) :
    (x.dropZeros n).scale = 0 ∨ (x.dropZeros n).mantissa % 10 ≠ 0 := by
  induction n generalizing x with
  | zero => exact .inl (Nat.le_zero.mp h)
  | succ n ih =>
    rw [dropZeros]
    split
    · apply ih
      change x.scale - 1 ≤ n
      omega
    · rename_i hLast
      by_cases hScale : x.scale = 0
      · exact .inl hScale
      · exact .inr fun hDigit => hLast ⟨hScale, hDigit⟩

/-- Of all ways to write a value the one without last zeros has the fewest digits. -/
theorem shortest_le {m s m' s' : Nat} (h : (m' : ℚ) / 10 ^ s' = m / 10 ^ s) (hShort : s = 0 ∨ m % 10 ≠ 0) :
    s ≤ s' ∧ m ≤ m' := by
  rw [div_eq_div_iff (by positivity) (by positivity)] at h
  have hUnits : m' * 10 ^ s = m * 10 ^ s' := by exact_mod_cast h
  have hScale : s ≤ s' := by
    by_contra hLess
    obtain ⟨k, hk⟩ := Nat.exists_eq_add_of_lt (Nat.lt_of_not_le hLess)
    rcases hShort with hZero | hDigit
    · omega
    · apply hDigit
      have hPow : 10 ^ s = 10 ^ s' * (10 ^ k * 10) := by rw [hk, Nat.add_assoc, pow_add, pow_succ]
      have hCancel : m' * (10 ^ k * 10) = m := by
        refine Nat.eq_of_mul_eq_mul_right (by positivity : 0 < 10 ^ s') ?_
        rw [← hUnits, hPow]
        ring
      rw [← hCancel, ← mul_assoc, Nat.mul_mod_left]
  refine ⟨hScale, ?_⟩
  have hPow : 10 ^ s ≤ 10 ^ s' := Nat.pow_le_pow_right (by decide) hScale
  refine Nat.le_of_mul_le_mul_right ?_ (by positivity : 0 < 10 ^ s)
  rw [hUnits]
  exact Nat.mul_le_mul_left m hPow

/-- Without trailing zeros a value is written in one way. -/
theorem eq_of_toRat_eq (h : x.toRat = y.toRat) (hx : x.scale = 0 ∨ x.mantissa % 10 ≠ 0)
    (hy : y.scale = 0 ∨ y.mantissa % 10 ≠ 0) : x = y := by
  have hScale : x.scale = y.scale :=
    le_antisymm (shortest_le h.symm hx).1 (shortest_le h hy).1
  have hMantissa : x.mantissa = y.mantissa := by
    rw [toRat, toRat, hScale, div_left_inj' (by positivity)] at h
    exact_mod_cast h
  cases x
  cases y
  cases hScale
  cases hMantissa
  rfl

end Magnitude

namespace Decimal

variable {x x' y y' r : Decimal} {n : Nat}

theorem negative_eq_of_toRat_eq (h : x.toRat = y.toRat) (hx : x.toRat ≠ 0) :
    x.negative = y.negative := by
  have hxMagnitude := x.toMagnitude.toRat_nonneg
  have hyMagnitude := y.toMagnitude.toRat_nonneg
  rw [toRat_eq x] at h hx
  rw [toRat_eq y] at h
  cases hSign : x.negative <;> cases hSign' : y.negative <;> simp [hSign, hSign'] at h hx ⊢
  · exact hx (by linarith)
  · exact hx (by linarith)

theorem normalize_eq (h : x.toRat = y.toRat) : x.normalize = y.normalize := by
  have hZero : x.isZero = y.isZero := by
    rw [Bool.eq_iff_iff, isZero_iff_toRat, isZero_iff_toRat, h]
  rw [normalize, normalize, hZero]
  split
  · rfl
  · rename_i hNonzero
    have hy : y.toRat ≠ 0 := mt isZero_iff_toRat.mpr hNonzero
    have hSign := negative_eq_of_toRat_eq h (h ▸ hy)
    have hMagnitude : x.toMagnitude.toRat = y.toMagnitude.toRat := by
      rw [← abs_toRat, ← abs_toRat, h]
    have hDigits : x.toMagnitude.dropZeros x.scale = y.toMagnitude.dropZeros y.scale := by
      apply Magnitude.eq_of_toRat_eq
      · rw [Magnitude.toRat_dropZeros, Magnitude.toRat_dropZeros, hMagnitude]
      · exact Magnitude.scale_dropZeros le_rfl
      · exact Magnitude.scale_dropZeros le_rfl
    rw [hDigits, hSign]

theorem toRat_truncateTo_eq {places : Nat} {hPlaces : places ≤ 28} (h : x.toRat = y.toRat) :
    (x.truncateTo places hPlaces).toRat = (y.truncateTo places hPlaces).toRat := by
  rcases le_total 0 x.toRat with hSign | hSign
  · rw [toRat_truncateTo_of_nonneg hSign, toRat_truncateTo_of_nonneg (h ▸ hSign), h]
  · rw [toRat_truncateTo_of_nonpos hSign, toRat_truncateTo_of_nonpos (h ▸ hSign), h]

/-- The amount next to a value toward zero, digit for digit. -/
theorem quantize_eq (h : x.toRat = y.toRat) : x.quantize = y.quantize :=
  normalize_eq (toRat_truncateTo_eq h)

theorem quantizeUp_eq (h : x.toRat = y.toRat) : x.quantizeUp = y.quantizeUp := by
  apply normalize_eq
  rw [toRat_ceilTo, toRat_ceilTo, h]

theorem isInteger_congr (h : x.toRat = y.toRat) : x.IsInteger ↔ y.IsInteger := by
  have hUnits : x.truncateUnits.toRat = y.truncateUnits.toRat := toRat_truncateTo_eq h
  simp only [IsInteger, equiv_iff_toRat_eq, hUnits, h]

end Decimal

open Decimal in
theorem Computes.map_toRat_eq {v : ℚ} {o o' : Option Decimal} (h : Computes v o) (h' : Computes v o') :
    o.map toRat = o'.map toRat := by
  cases o with
  | none =>
    cases o' with
    | none => rfl
    | some y => exact absurd (h'.rounds rfl).magnitude (h _)
  | some x =>
    cases o' with
    | none => exact absurd (h.rounds rfl).magnitude (h' _)
    | some y =>
      rw [Option.map_some, Option.map_some]
      exact congrArg some (le_antisymm ((h.rounds rfl).mono le_rfl (h'.rounds rfl))
        ((h'.rounds rfl).mono le_rfl (h.rounds rfl)))

namespace Decimal

variable {x x' y y' r r' : Decimal} {n : Nat}

theorem map_toRat_add? (hx : x.toRat = x'.toRat) (hy : y.toRat = y'.toRat) :
    (x.add? y).map toRat = (x'.add? y').map toRat := by
  have h := computes_add? x' y'
  rw [← hx, ← hy] at h
  exact (computes_add? x y).map_toRat_eq h

theorem map_toRat_sub? (hx : x.toRat = x'.toRat) (hy : y.toRat = y'.toRat) :
    (x.sub? y).map toRat = (x'.sub? y').map toRat := by
  have h := computes_sub? x' y'
  rw [← hx, ← hy] at h
  exact (computes_sub? x y).map_toRat_eq h

theorem map_toRat_mul? (hx : x.toRat = x'.toRat) (hy : y.toRat = y'.toRat) :
    (x.mul? y).map toRat = (x'.mul? y').map toRat := by
  have h := computes_mul? x' y'
  rw [← hx, ← hy] at h
  exact (computes_mul? x y).map_toRat_eq h

theorem div?_of_toRat_eq_zero (hy : y.toRat = 0) : x.div? y = none := by
  rw [div?, if_pos (toRat_eq_zero_iff.mp hy)]

theorem map_toRat_div? (hx : x.toRat = x'.toRat) (hy : y.toRat = y'.toRat) :
    (x.div? y).map toRat = (x'.div? y').map toRat := by
  by_cases hZero : y.toRat = 0
  · rw [div?_of_toRat_eq_zero hZero, div?_of_toRat_eq_zero (hy ▸ hZero)]
  · have h := computes_div? (x := x') (hy ▸ hZero)
    rw [← hx, ← hy] at h
    exact (computes_div? hZero).map_toRat_eq h

/-- Two decimals of one value have powers of one value: below exponent 1024, where they are written
alike, at zero and one, and from two on, where no power fits. -/
def PowersAgree (n : Nat) (x y : Decimal) : Prop :=
  n < 1024 ∨ x = y ∨ x.toRat = 0 ∨ x.toRat = 1 ∨ 2 ≤ x.toRat

theorem map_toRat_eq_of_follows {o o' : Option Decimal} (h : Follows Below o o')
    (h' : Follows Below o' o) : o.map toRat = o'.map toRat := by
  cases o with
  | none =>
    cases o' with
    | none => rfl
    | some y =>
      obtain ⟨_, hNone, _⟩ := h y rfl
      cases hNone
  | some x =>
    obtain ⟨y, hy, _, hGe⟩ := h' x rfl
    obtain ⟨_, hx, _, hLe⟩ := h y hy
    cases hx
    rw [hy, Option.map_some, Option.map_some, le_antisymm hLe hGe]

theorem map_toRat_pow?_eq (hx : 0 ≤ x.toRat) (h : x.toRat = y.toRat) (hAgree : PowersAgree n x y) :
    (x.pow? n).map toRat = (y.pow? n).map toRat := by
  rcases Nat.lt_or_ge n 1024 with hSmall | hLarge
  · exact map_toRat_eq_of_follows (follows_pow?_of_lt hSmall ⟨hx, h.le⟩)
      (follows_pow?_of_lt hSmall ⟨h ▸ hx, h.ge⟩)
  · have hn : n ≠ 0 := by omega
    rcases hAgree with hSmall | rfl | hZero | hOne | hTwo
    · omega
    · rfl
    · rw [pow?_of_toRat_eq_zero hn hZero, pow?_of_toRat_eq_zero hn (h ▸ hZero)]
    · rw [pow?_of_toRat_eq_one hn hOne, pow?_of_toRat_eq_one hn (h ▸ hOne)]
    · have hNone : ∀ z : Decimal, 2 ≤ z.toRat → z.pow? n = none := by
        intro z hz
        rw [Option.eq_none_iff_forall_ne_some]
        intro r hr
        exact absurd (lt_two_of_pow? hLarge hr) (not_lt.mpr hz)
      rw [hNone x hTwo, hNone y (h ▸ hTwo)]

theorem map_toRat_bind {o o' : Option Decimal} {f g : Decimal → Option Decimal}
    (h : o.map toRat = o'.map toRat)
    (hNext : ∀ a b : Decimal, a.toRat = b.toRat → (f a).map toRat = (g b).map toRat) :
    (o.bind f).map toRat = (o'.bind g).map toRat := by
  cases o with
  | none =>
    cases o' with
    | none => rfl
    | some b => cases h
  | some a =>
    cases o' with
    | none => cases h
    | some b => exact hNext a b (Option.some.inj h)

theorem map_toRat_rootRound (hx : x.toRat = x'.toRat) (hr : r.toRat = r'.toRat) :
    (rootRound x r).map toRat = (rootRound x' r').map toRat := by
  refine map_toRat_bind (map_toRat_div? hx hr) fun q q' hq => ?_
  exact map_toRat_bind (map_toRat_add? hr hq) fun s s' hs => map_toRat_div? hs rfl

theorem map_toRat_rootFrom (hx : x.toRat = x'.toRat) (hr : r.toRat = r'.toRat) (rounds : Nat) :
    (rootFrom x r rounds).map toRat = (rootFrom x' r' rounds).map toRat := by
  induction rounds generalizing r r' with
  | zero => rfl
  | succ rounds ih =>
    refine map_toRat_bind (map_toRat_rootRound hx hr) fun s s' hs => ?_
    have hStop : s ≈ r ↔ s' ≈ r' := by
      rw [equiv_iff_toRat_eq, equiv_iff_toRat_eq, hs, hr]
    by_cases h : s ≈ r
    · rw [if_pos h, if_pos (hStop.mp h), Option.map_some, Option.map_some, hs]
    · rw [if_neg h, if_neg (mt hStop.mpr h)]
      exact ih hs

theorem map_toRat_rootSeed (hx : x.toRat = x'.toRat) : (rootSeed x).map toRat = (rootSeed x').map toRat := by
  refine map_toRat_bind (map_toRat_div? hx (rfl : two.toRat = two.toRat)) fun half half' hHalf => ?_
  have hZero : half.isZero = half'.isZero := by
    rw [Bool.eq_iff_iff, isZero_iff_toRat, isZero_iff_toRat, hHalf]
  rw [hZero]
  split
  · exact congrArg some hx
  · exact congrArg some hHalf

theorem map_toRat_rootIteration (hx : x.toRat = x'.toRat) (rounds : Nat) :
    (x.rootIteration rounds).map toRat = (x'.rootIteration rounds).map toRat :=
  map_toRat_bind (map_toRat_rootSeed hx) fun _ _ hSeed => map_toRat_rootFrom hx hSeed rounds

theorem sqrtWithin_of_pos (hx : 0 < x.toRat) (rounds : Nat) :
    x.sqrtWithin rounds = .ofIteration (x.rootIteration rounds) := by
  have hZero : ¬x.isZero = true := mt isZero_iff_toRat.mp hx.ne'
  rw [sqrtWithin, if_neg (by simp [negative_eq_false hx]), if_neg hZero]

end Decimal

end BondingCurve
