import BondingCurve.Text.Digits
import Mathlib.Algebra.Order.Ring.Nat
import Mathlib.Tactic.Linarith
import Mathlib.Tactic.Positivity

/-!
# Digits read back

Zeros in front do not change the number that digits denote, and the digits of a number have none.
-/

namespace BondingCurve.Text

theorem ofDigits_toDigits (n : Nat) : ofDigits (Nat.toDigits 10 n) = n := Nat.ofDigitChars_ten_toDigits

theorem isDigit_of_mem_toDigits {n : Nat} : ∀ c ∈ Nat.toDigits 10 n, c.isDigit = true :=
  fun _ hc => Nat.isDigit_of_mem_toDigits (by decide) (by decide) hc

theorem head_toDigits (n : Nat) : ∃ c cs, Nat.toDigits 10 n = c :: cs ∧ c.isDigit = true := by
  obtain ⟨c, cs, hDigits⟩ := List.exists_cons_of_ne_nil (Nat.toDigits_ne_nil (b := 10) (n := n))
  exact ⟨c, cs, hDigits, isDigit_of_mem_toDigits c (hDigits ▸ List.mem_cons_self)⟩

theorem ofDigitChars_cons (c : Char) (cs : List Char) (n : Nat) :
    Nat.ofDigitChars 10 (c :: cs) n = Nat.ofDigitChars 10 cs (10 * n + digitValue c) := Nat.ofDigitChars_cons

theorem le_ofDigitChars (cs : List Char) (n : Nat) : n ≤ Nat.ofDigitChars 10 cs n := by
  rw [Nat.ofDigitChars_eq_ofDigitChars_zero]
  have hPow : 0 < 10 ^ cs.length := by positivity
  nlinarith

/-- No leading zero but that of zero. -/
theorem eq_zero_of_head?_toDigits {n : Nat} (h : (Nat.toDigits 10 n).head? = some '0') : n = 0 := by
  induction n using Nat.strongRecOn with
  | ind n ih =>
    by_cases hSmall : n < 10
    · rw [Nat.toDigits_of_lt_base hSmall] at h
      simpa using h
    · rw [Nat.toDigits_of_base_le (by decide) (not_lt.mp hSmall), List.head?_append,
        List.head?_eq_some_head Nat.toDigits_ne_nil] at h
      have hQuotient := ih (n / 10) (by omega) (by rwa [List.head?_eq_some_head Nat.toDigits_ne_nil])
      omega

section Padded

variable {width n : Nat}

theorem isDigit_of_mem_padded : ∀ c ∈ padded width n, c.isDigit = true := by
  intro c hc
  rw [padded, List.leftpad, List.mem_append] at hc
  obtain hZero | hDigit := hc
  · rw [List.eq_of_mem_replicate hZero]
    decide
  · exact isDigit_of_mem_toDigits c hDigit

theorem length_padded (hWidth : 0 < width) (h : n < 10 ^ width) : (padded width n).length = width := by
  have hShort := (Nat.length_toDigits_le_iff (by decide) hWidth).mpr h
  rw [padded, List.leftpad, List.length_append, List.length_replicate]
  omega

theorem ofDigitChars_padded (hWidth : 0 < width) (h : n < 10 ^ width) (whole : Nat) :
    Nat.ofDigitChars 10 (padded width n) whole = 10 ^ width * whole + n := by
  have hDigits : Nat.ofDigitChars 10 (padded width n) 0 = n := by
    rw [padded, List.leftpad, Nat.ofDigitChars_append, Nat.ofDigitChars_replicate_zero, Nat.mul_zero,
      Nat.ofDigitChars_ten_toDigits]
  rw [Nat.ofDigitChars_eq_ofDigitChars_zero, hDigits, length_padded hWidth h]

end Padded

end BondingCurve.Text
