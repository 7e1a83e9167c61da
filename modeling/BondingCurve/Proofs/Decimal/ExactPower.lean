import BondingCurve.Proofs.Decimal.Canonical
import Mathlib.Data.Nat.Prime.Basic

/-!
# Powers that are decimals

Without last zeros neither digit count nor mantissa of a power falls short of those of the powers below it. So
where one power of a decimal is a decimal, all lower ones are, the loop that makes it rounds nothing, and from
exponent 97 on the base is zero or one.
-/

namespace BondingCurve

theorem pow_mod_ten_ne_zero {m : Nat} (n : Nat) (h : m % 10 ≠ 0) : m ^ n % 10 ≠ 0 := by
  intro hPow
  have hTwo : 2 ∣ m := Nat.prime_two.dvd_of_dvd_pow (by omega : 2 ∣ m ^ n)
  have hFive : 5 ∣ m := Nat.prime_five.dvd_of_dvd_pow (by omega : 5 ∣ m ^ n)
  omega

namespace Decimal

variable {x : Decimal} {n k : Nat}

theorem exists_shortest (hx : 0 ≤ x.toRat) :
    ∃ m s : Nat, x.toRat = (m : ℚ) / 10 ^ s ∧ (s = 0 ∨ m % 10 ≠ 0) := by
  refine ⟨_, _, ?_, x.toMagnitude.scale_dropZeros le_rfl⟩
  rw [toRat_of_nonneg hx, ← x.toMagnitude.toRat_dropZeros x.scale]
  rfl

/-- The digits and the mantissa of a power that is a decimal. -/
theorem pow_fits {m s : Nat} (hx : x.toRat = (m : ℚ) / 10 ^ s) (hShort : s = 0 ∨ m % 10 ≠ 0)
    (h : Exact (x.toRat ^ n)) : s * n ≤ 28 ∧ m ^ n < 2 ^ 96 := by
  obtain ⟨y, hy⟩ := h
  have hNonneg : 0 ≤ y.toRat := by
    rw [hy, hx]
    positivity
  rw [hx, div_pow, ← pow_mul, toRat_of_nonneg hNonneg, Magnitude.toRat] at hy
  have hPowShort : s * n = 0 ∨ m ^ n % 10 ≠ 0 := by
    rcases hShort with hZero | hDigit
    · exact .inl (by rw [hZero, Nat.zero_mul])
    · exact .inr (pow_mod_ten_ne_zero n hDigit)
  obtain ⟨hScale, hMantissa⟩ := Magnitude.shortest_le (m := m ^ n) (by exact_mod_cast hy) hPowShort
  exact ⟨hScale.trans y.scale_le, hMantissa.trans_lt y.mantissa_lt⟩

theorem exact_pow_of_le (hx : 0 ≤ x.toRat) (h : Exact (x.toRat ^ n)) (hk : k ≤ n) : Exact (x.toRat ^ k) := by
  rcases Nat.eq_zero_or_pos k with rfl | hPos
  · rw [pow_zero]
    exact ⟨1, toRat_one⟩
  obtain ⟨m, s, hValue, hShort⟩ := exists_shortest hx
  obtain ⟨hScale, hMantissa⟩ := pow_fits hValue hShort h
  have hLess : m ^ k < 2 ^ 96 := by
    rcases Nat.eq_zero_or_pos m with rfl | hm
    · rw [Nat.zero_pow hPos]
      decide
    · exact (Nat.pow_le_pow_right hm hk).trans_lt hMantissa
  refine exact_of_mantissa (m ^ k) (s * k) hLess ((Nat.mul_le_mul_left s hk).trans hScale) ?_
  rw [abs_of_nonneg (pow_nonneg hx k), hValue, div_pow, ← pow_mul, div_mul_cancel₀ _ (by positivity)]
  exact_mod_cast rfl

/-- Ninety-six bits hold no power from exponent 97 on but those of zero and one. -/
theorem eq_zero_or_one_of_exact_pow (hx : 0 ≤ x.toRat) (hn : 97 ≤ n) (h : Exact (x.toRat ^ n)) :
    x.toRat = 0 ∨ x.toRat = 1 := by
  obtain ⟨m, s, hValue, hShort⟩ := exists_shortest hx
  obtain ⟨hScale, hMantissa⟩ := pow_fits hValue hShort h
  have hs : s = 0 := by
    by_contra hPos
    have := Nat.mul_le_mul (Nat.one_le_iff_ne_zero.mpr hPos) hn
    omega
  have hm : m < 2 := by
    by_contra hTwo
    have hSmaller : 2 ^ 97 ≤ m ^ n :=
      (Nat.pow_le_pow_right (by decide) hn).trans (Nat.pow_le_pow_left (not_lt.mp hTwo) n)
    omega
  rw [hValue, hs, pow_zero, div_one]
  exact_mod_cast (by omega : m = 0 ∨ m = 1)

theorem powersAgree_of_exact {y : Decimal} (hx : 0 ≤ x.toRat) (h : Exact (x.toRat ^ n)) : PowersAgree n x y := by
  rcases Nat.lt_or_ge n 1024 with hSmall | hLarge
  · exact .inl hSmall
  · rcases eq_zero_or_one_of_exact_pow hx (by omega) h with hZero | hOne
    · exact .inr (.inr (.inl hZero))
    · exact .inr (.inr (.inr (.inl hOne)))

/-- The loop meets no power above the one it is to make. -/
theorem squareAndMultiply_of_exact {N : Nat} (hx : 0 ≤ x.toRat) (h : Exact (x.toRat ^ N)) {a b : Decimal}
    {i j : Nat} (ha : a.toRat = x.toRat ^ i) (hb : b.toRat = x.toRat ^ j) (hn : n ≠ 0) (hN : i + j * n ≤ N) :
    ∃ p, squareAndMultiply mul? a b n = some p ∧ p.toRat = x.toRat ^ (i + j * n) := by
  induction n using Nat.strongRecOn generalizing a b i j with
  | ind n ih =>
    have hMul : ∀ {u v : Decimal} {k l : Nat}, u.toRat = x.toRat ^ k → v.toRat = x.toRat ^ l →
        k + l ≤ N → ∃ p, u.mul? v = some p ∧ p.toRat = x.toRat ^ (k + l) := by
      intro u v k l hu hv hLe
      have hComputes := computes_mul? u v
      rw [hu, hv, ← pow_add] at hComputes
      exact hComputes.eq_of_exact (exact_pow_of_le hx h hLe)
    have hBit : j ≤ j * n := Nat.le_mul_of_pos_right j (Nat.pos_of_ne_zero hn)
    have hAcc : ∃ c, (if n % 2 = 1 then a.mul? b else pure a) = some c ∧
        c.toRat = x.toRat ^ (i + j * (n % 2)) := by
      rcases Nat.mod_two_eq_zero_or_one n with hEven | hOdd
      · refine ⟨a, by rw [hEven, if_neg (by decide), Option.pure_def], ?_⟩
        rw [ha, hEven, Nat.mul_zero, Nat.add_zero]
      · obtain ⟨c, hc, hValue⟩ := hMul ha hb (by omega)
        exact ⟨c, by rw [if_pos hOdd, hc], by rw [hValue, hOdd, Nat.mul_one]⟩
    obtain ⟨c, hc, hcValue⟩ := hAcc
    rw [squareAndMultiply, hc, Option.bind_eq_bind, Option.bind_some]
    by_cases hLast : n < 2
    · have hOne : n = 1 := by omega
      subst hOne
      exact ⟨c, if_pos hLast, hcValue⟩
    · have hExponent : i + j * (n % 2) + (j + j) * (n / 2) = i + j * n := by
        have hSplit := congrArg (j * ·) (Nat.mod_add_div n 2)
        simp only [Nat.mul_add] at hSplit
        linarith
      have hDouble : j + j ≤ j * n := by
        rw [← Nat.mul_two]
        exact Nat.mul_le_mul_left j (by omega)
      obtain ⟨d, hd, hdValue⟩ := hMul hb hb (by omega)
      rw [if_neg hLast, hd, Option.bind_some, ← hExponent]
      exact ih (n / 2) (by omega) hcValue hdValue (by omega) (by omega)

/-- A power that is a decimal is the power. -/
theorem exists_pow?_of_exact (hx : 0 ≤ x.toRat) (h : Exact (x.toRat ^ n)) :
    ∃ p, x.pow? n = some p ∧ p.toRat = x.toRat ^ n := by
  by_cases hn : n = 0
  · exact ⟨1, by rw [pow?, if_pos hn], by rw [hn, pow_zero, toRat_one]⟩
  rcases Nat.lt_or_ge n 1024 with hSmall | hLarge
  · have hRun := squareAndMultiply_of_exact hx h (i := 0) (j := 1) (by rw [toRat_one, pow_zero])
      (by rw [pow_one]) hn (by omega)
    obtain ⟨p, hp, hValue⟩ := hRun
    have hMap := map_toRat_pow? x hn hSmall
    rw [hp, Option.map_some, hValue, Nat.zero_add, Nat.one_mul] at hMap
    exact Option.map_eq_some_iff.mp hMap
  · rcases eq_zero_or_one_of_exact_pow hx (by omega) h with hZero | hOne
    · exact ⟨0, pow?_of_toRat_eq_zero hn hZero, by rw [hZero, zero_pow hn, toRat_zero]⟩
    · exact ⟨1, pow?_of_toRat_eq_one hn hOne, by rw [hOne, one_pow, toRat_one]⟩

end Decimal

end BondingCurve
