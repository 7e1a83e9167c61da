import BondingCurve.Decimal.Binary64
import BondingCurve.Proofs.Decimal.Nearest
import BondingCurve.Proofs.Decimal.Text
import Mathlib.Algebra.Order.Field.Power
import Mathlib.Algebra.Group.Int.Even
import Mathlib.Data.List.TakeWhile

/-!
# Floats as decimals

A finite word below `2 ^ 96` becomes the nearest multiple of `10 ^ -6`, a tie going to the even one; any
other word is an error. A word with a fraction is below `2 ^ 53`, so that its millionths fit ninety-six bits.
A larger one is whole and is written with six zeros after the point, which the reader drops where they do not
fit.
-/

namespace BondingCurve

section Nearest

variable {places : Nat} {v r w : ℚ} {q : Nat}

/-- `r` is the multiple of `10 ^ -places` nearest to `v`: any other is farther away, or as far away while
this one is even. -/
def NearestMultiple (places : Nat) (v r : ℚ) : Prop :=
  ∃ k : ℤ, r = k / 10 ^ places ∧ ∀ n : ℤ, n ≠ k →
    |v - r| < |v - n / 10 ^ places| ∨ |v - r| = |v - n / 10 ^ places| ∧ Even k

theorem NearestMultiple.neg (h : NearestMultiple places v r) : NearestMultiple places (-v) (-r) := by
  obtain ⟨k, rfl, hOthers⟩ := h
  have hMirror : ∀ n : ℤ, |-v - n / 10 ^ places| = |v - (-n : ℤ) / 10 ^ places| := by
    intro n
    rw [← abs_neg]
    congr 1
    push_cast
    ring
  have hSelf : |-v - -(k / 10 ^ places)| = |v - k / 10 ^ places| := by
    rw [← abs_neg]
    congr 1
    ring
  refine ⟨-k, by push_cast; ring, fun n hn => ?_⟩
  rw [hSelf, hMirror, even_neg]
  exact hOthers (-n) (by omega)

theorem Nearest.lt_or_eq_of_ne (h : Nearest w q) {n : ℤ} (hn : n ≠ q) :
    |w - q| < |w - n| ∨ |w - q| = |w - n| ∧ Even (q : ℤ) := by
  have hApart : (1 : ℚ) ≤ |(q : ℚ) - n| := by
    have hUnits : (1 : ℤ) ≤ |(q : ℤ) - n| := Int.one_le_abs (sub_ne_zero.mpr hn.symm)
    exact_mod_cast hUnits
  have hTriangle : |(q : ℚ) - n| ≤ |w - q| + |w - n| := by
    rw [abs_sub_comm w (q : ℚ)]
    exact abs_sub_le _ _ _
  obtain hLess | hTie := lt_or_eq_of_le h.1
  · exact .inl (by linarith)
  · obtain hFar | hSame := lt_or_ge |w - q| |w - n|
    · exact .inl hFar
    · have hEven : Even q := Nat.even_iff.mpr (h.2 hTie)
      exact .inr ⟨by linarith, by exact_mod_cast hEven⟩

theorem Nearest.nearestMultiple (h : Nearest (v * 10 ^ places) q) : NearestMultiple places v (q / 10 ^ places) := by
  have hPow : (0 : ℚ) < 10 ^ places := by positivity
  have hUnits : ∀ u : ℚ, |v - u / 10 ^ places| = |v * 10 ^ places - u| / 10 ^ places := by
    intro u
    rw [← abs_of_pos hPow, ← abs_div, abs_of_pos hPow, sub_div, mul_div_cancel_right₀ _ hPow.ne']
  refine ⟨q, by rw [Int.cast_natCast], fun n hn => ?_⟩
  rw [hUnits, hUnits, div_lt_div_iff_of_pos_right hPow, div_left_inj' hPow.ne']
  exact h.lt_or_eq_of_ne hn

end Nearest

namespace Decimal

open Text

variable {ds rest : List Char} {m s : Nat} {digit : Bool}

/-- Before the point there is no room for more than ninety-six bits. -/
theorem readUnsigned_tooLong (hDigits : ∀ c ∈ ds, c.isDigit = true) (hFits : m < 2 ^ 96)
    (hLong : 2 ^ 96 ≤ Nat.ofDigitChars 10 ds m) : readUnsigned m s false digit (ds ++ rest) = none := by
  induction ds generalizing m digit with
  | nil => exact absurd hFits (Nat.not_lt.mpr hLong)
  | cons c ds ih =>
    obtain ⟨hFirst, hRest⟩ := List.forall_mem_cons.mp hDigits
    rw [ofDigitChars_cons] at hLong
    rw [List.cons_append, readUnsigned, if_pos hFirst]
    simp only [Bool.false_eq_true, if_false, false_and]
    split
    · rename_i hRoom
      exact ih hRest hRoom.1 hLong
    · rfl

/-- Zeros behind the point change no value: those that do not fit are dropped. -/
theorem readUnsigned_zeros (hFits : m < 2 ^ 96) {count : Nat} (hPlaces : s + count ≤ 28) :
    ∃ x, readUnsigned m s true true (List.replicate count '0') = some x ∧ x.toRat = m / 10 ^ s := by
  induction count generalizing m s with
  | zero => exact ⟨⟨m, s, hFits, hPlaces⟩, Magnitude.of?_eq_some_iff.mpr ⟨rfl, rfl⟩, rfl⟩
  | succ count ih =>
    have hZero : digitValue '0' = 0 := rfl
    rw [List.replicate_succ]
    by_cases hRoom : 10 * m + digitValue '0' < 2 ^ 96
    · obtain ⟨x, hRead, hValue⟩ := ih (s := s + 1) hRoom (by omega)
      refine ⟨x, ?_, ?_⟩
      · rw [readUnsigned_digit (by decide) hRoom (by simp; omega)]
        exact hRead
      · rw [hValue, hZero, pow_succ]
        push_cast
        field_simp
        ring
    · have hIgnorable : Ignorable (List.replicate count '0') := by
        intro c hc
        rw [List.eq_of_mem_replicate hc]
        exact .inl (by decide)
      refine ⟨⟨m, s, hFits, by omega⟩, ?_, rfl⟩
      rw [readUnsigned, if_pos (by decide), if_neg fun h => hRoom h.1,
        if_pos ⟨rfl, hIgnorable⟩]
      exact Magnitude.of?_eq_some_iff.mpr ⟨rfl, rfl⟩

theorem readScientific_eq_none {cs : List Char} (h : ∀ c ∈ cs, c ≠ 'e' ∧ c ≠ 'E') : readScientific cs = none := by
  have hMark : cs.dropWhile (fun c => !(c == 'e' || c == 'E')) = [] := by
    rw [List.dropWhile_eq_nil_iff]
    intro c hc
    simp [h c hc]
  rw [readScientific]
  dsimp only
  rw [hMark]

end Decimal

namespace Binary64

open Decimal Text

variable {negative : Bool} {mantissa micros : Nat} {exponent : Int} {v : ℚ}

/-- The number without its sign: whole part, point and six digits. -/
def unsignedMicros (micros : Nat) : List Char :=
  Nat.toDigits 10 (micros / 10 ^ 6) ++ '.' :: padded 6 (micros % 10 ^ 6)

theorem microChars_eq (negative : Bool) (micros : Nat) :
    microChars negative micros = if negative then '-' :: unsignedMicros micros else unsignedMicros micros := rfl

theorem head_unsignedMicros (micros : Nat) :
    ∃ c rest, unsignedMicros micros = c :: rest ∧ c.isDigit = true := by
  obtain ⟨c, cs, hDigits, hDigit⟩ := head_toDigits (micros / 10 ^ 6)
  rw [unsignedMicros, hDigits]
  exact ⟨c, _, rfl, hDigit⟩

theorem read?_microChars (negative : Bool) (micros : Nat) : read? (microChars negative micros) =
    (readUnsigned 0 0 false false (unsignedMicros micros)).map (·.signed negative) := by
  have hScientific : readScientific (microChars negative micros) = none := by
    apply readScientific_eq_none
    intro c hc
    have hNumeral : Numeral c := numeral_of_mem_signed (fun _ => numeral_of_mem_fraction) hc
    constructor
    · rintro rfl
      exact absurd hNumeral (by decide)
    · rintro rfl
      exact absurd hNumeral (by decide)
  rw [read?, hScientific, Option.or_none, microChars_eq, readPlain_signed (head_unsignedMicros micros)]

/-- A number of millionths is read back if it fits, or if it is whole and its whole part fits. -/
theorem readUnsigned_micros (hWhole : micros / 10 ^ 6 < 2 ^ 96) (h : micros < 2 ^ 96 ∨ micros % 10 ^ 6 = 0) :
    ∃ x, readUnsigned 0 0 false false (unsignedMicros micros) = some x ∧ x.toRat = micros / 10 ^ 6 := by
  have hDivision := Nat.div_add_mod micros (10 ^ 6)
  have hPoint : ∀ rest, readUnsigned (micros / 10 ^ 6) 0 false true ('.' :: rest) =
      readUnsigned (micros / 10 ^ 6) 0 true true rest := fun _ => rfl
  rw [unsignedMicros, readUnsigned_whole _ hWhole, hPoint]
  obtain hFits | hExact := h
  · have hLess : micros % 10 ^ 6 < 10 ^ 6 := Nat.mod_lt _ (by positivity)
    rw [readUnsigned_fraction (by decide) (by decide) hLess (hDivision.symm ▸ hFits), hDivision]
    exact ⟨⟨micros, 6, hFits, by decide⟩, Magnitude.of?_eq_some_iff.mpr ⟨rfl, rfl⟩, rfl⟩
  · have hZeros : padded 6 0 = List.replicate 6 '0' := by decide
    have hPlaces : 0 + 6 ≤ 28 := by decide
    obtain ⟨x, hRead, hValue⟩ := readUnsigned_zeros hWhole hPlaces
    refine ⟨x, by rw [hExact, hZeros, hRead], ?_⟩
    rw [hExact, Nat.add_zero] at hDivision
    have hMicros : (micros : ℚ) = 10 ^ 6 * (micros / 10 ^ 6 : Nat) := by exact_mod_cast hDivision.symm
    rw [hValue, hMicros]
    field_simp

theorem readUnsigned_micros_tooLong (h : 2 ^ 96 ≤ micros / 10 ^ 6) :
    readUnsigned 0 0 false false (unsignedMicros micros) = none := by
  rw [unsignedMicros]
  have hDigits : Nat.ofDigitChars 10 (Nat.toDigits 10 (micros / 10 ^ 6)) 0 = micros / 10 ^ 6 :=
    ofDigits_toDigits _
  exact readUnsigned_tooLong isDigit_of_mem_toDigits (by positivity) (hDigits.symm ▸ h)

theorem fraction_spec (mantissa : Nat) (exponent : Int) : 0 < (fraction mantissa exponent).2 ∧
    ((fraction mantissa exponent).1 : ℚ) / (fraction mantissa exponent).2 = mantissa * 2 ^ exponent := by
  cases exponent with
  | ofNat e =>
    refine ⟨by simp [fraction], ?_⟩
    simp [fraction]
  | negSucc e =>
    refine ⟨by simp [fraction], ?_⟩
    simp [fraction, zpow_negSucc, div_eq_mul_inv]

theorem nearest_micros (mantissa : Nat) (exponent : Int) :
    Nearest (mantissa * 2 ^ exponent * 10 ^ 6) (Binary64.micros mantissa exponent) := by
  obtain ⟨hPos, hValue⟩ := fraction_spec mantissa exponent
  have hNearest := nearest_nearestQuotient ((fraction mantissa exponent).1 * 10 ^ 6) hPos
  rw [← hValue, div_mul_eq_mul_div]
  exact_mod_cast hNearest

/-- Below `2 ^ 96` either there is no fraction or the value is below `2 ^ 53`. -/
theorem micros_fits (hMantissa : mantissa < 2 ^ 53) (hSmall : (mantissa : ℚ) * 2 ^ exponent < 2 ^ 96) :
    Binary64.micros mantissa exponent / 10 ^ 6 < 2 ^ 96 ∧
      (Binary64.micros mantissa exponent < 2 ^ 96 ∨ Binary64.micros mantissa exponent % 10 ^ 6 = 0) := by
  have hNearest := nearest_micros mantissa exponent
  cases exponent with
  | ofNat e =>
    have hExact : Binary64.micros mantissa (.ofNat e) = mantissa * 2 ^ e * 10 ^ 6 := nearestQuotient_one _
    have hWhole : mantissa * 2 ^ e < 2 ^ 96 := by
      rw [Int.ofNat_eq_natCast, zpow_natCast] at hSmall
      exact_mod_cast hSmall
    rw [hExact, Nat.mul_div_cancel _ (by positivity), Nat.mul_mod_left]
    exact ⟨hWhole, .inr rfl⟩
  | negSucc e =>
    have hRatio : (2 : ℚ) ^ Int.negSucc e ≤ 1 := zpow_le_one_of_nonpos₀ (by norm_num) (by omega)
    have hBelow : (mantissa : ℚ) * 2 ^ Int.negSucc e ≤ 2 ^ 53 := by
      have hRat : (mantissa : ℚ) ≤ 2 ^ 53 := by exact_mod_cast hMantissa.le
      calc
        (mantissa : ℚ) * 2 ^ Int.negSucc e ≤ mantissa * 1 := by gcongr
        _ ≤ 2 ^ 53 := by linarith
    have hMicros : Binary64.micros mantissa (.negSucc e) ≤ 2 ^ 53 * 10 ^ 6 := by
      have hUnit : (0 : ℚ) ≤ 10 ^ 6 := by positivity
      apply hNearest.le_of_le_natCast
      rw [Nat.cast_mul, Nat.cast_pow, Nat.cast_pow]
      exact mul_le_mul_of_nonneg_right hBelow hUnit
    omega

theorem toDecimal_of_lt (operation : String) (hMantissa : mantissa < 2 ^ 53)
    (hSmall : (mantissa : ℚ) * 2 ^ exponent < 2 ^ 96) :
    ∃ d, (finite negative mantissa exponent).toDecimal operation = .ok d ∧
      NearestMultiple 6 (if negative then -(mantissa * 2 ^ exponent) else mantissa * 2 ^ exponent) d.toRat := by
  obtain ⟨hWhole, hFits⟩ := micros_fits hMantissa hSmall
  obtain ⟨x, hRead, hValue⟩ := readUnsigned_micros hWhole hFits
  have hNearest := (nearest_micros mantissa exponent).nearestMultiple
  refine ⟨x.signed negative, by simp [toDecimal, read?_microChars, hRead], ?_⟩
  rw [toRat_signed, hValue]
  split
  · exact hNearest.neg
  · exact hNearest

theorem toDecimal_of_ge (operation : String) (hLarge : 2 ^ 96 ≤ (mantissa : ℚ) * 2 ^ exponent) :
    ∃ written, (finite negative mantissa exponent).toDecimal operation =
      .error (.arithmeticOverflow (.outOfRange operation written)) := by
  have hMicros : 2 ^ 96 * 10 ^ 6 ≤ micros mantissa exponent := by
    have hUnit : (0 : ℚ) ≤ 10 ^ 6 := by positivity
    apply (nearest_micros mantissa exponent).le_of_natCast_le
    rw [Nat.cast_mul, Nat.cast_pow, Nat.cast_pow]
    exact mul_le_mul_of_nonneg_right hLarge hUnit
  have hWhole : 2 ^ 96 ≤ micros mantissa exponent / 10 ^ 6 := by omega
  refine ⟨String.ofList (microChars negative (micros mantissa exponent)), ?_⟩
  simp [toDecimal, read?_microChars, readUnsigned_micros_tooLong hWhole]

theorem mantissa_lt_of_ofBits {bits : UInt64} (h : ofBits bits = finite negative mantissa exponent) :
    mantissa < 2 ^ 53 := by
  rw [ofBits] at h
  have hFraction : bits.toNat % 2 ^ 52 < 2 ^ 52 := Nat.mod_lt _ (by positivity)
  split at h
  · split at h
    · cases h
    · cases h
  · split at h
    · cases h
      omega
    · cases h
      omega

/-- A word that is no number, infinite, or `2 ^ 96` or more on either side of zero is refused. Every other
becomes a decimal, the multiple of `10 ^ -6` nearest to its exact value. -/
theorem toDecimal_nearest (bits : UInt64) (operation : String) :
    ((ofBits bits).toRat? = none →
      (ofBits bits).toDecimal operation = .error (.arithmeticOverflow (.notFinite operation))) ∧
    ∀ v, (ofBits bits).toRat? = some v →
      (2 ^ 96 ≤ |v| → ∃ written, (ofBits bits).toDecimal operation =
        .error (.arithmeticOverflow (.outOfRange operation written))) ∧
      (|v| < 2 ^ 96 → ∃ d, (ofBits bits).toDecimal operation = .ok d ∧ NearestMultiple 6 v d.toRat) := by
  cases h : ofBits bits with
  | finite negative mantissa exponent =>
    refine ⟨fun hNone => (by cases hNone), fun v hv => ?_⟩
    have hNonneg : 0 ≤ (mantissa : ℚ) * 2 ^ exponent := by positivity
    have hValue : v = if negative then -((mantissa : ℚ) * 2 ^ exponent) else (mantissa : ℚ) * 2 ^ exponent :=
      (Option.some.inj hv).symm
    have hAbs : |v| = (mantissa : ℚ) * 2 ^ exponent := by
      rw [hValue]
      split
      · rw [abs_neg, abs_of_nonneg hNonneg]
      · exact abs_of_nonneg hNonneg
    rw [hAbs, hValue]
    exact ⟨toDecimal_of_ge operation, toDecimal_of_lt operation (mantissa_lt_of_ofBits h)⟩
  | infinite negative => exact ⟨fun _ => rfl, fun v hv => by cases hv⟩
  | nan => exact ⟨fun _ => rfl, fun v hv => by cases hv⟩

/-- A tie between two millionths, the last word below `2 ^ 96`, `2 ^ 96` itself and a word that is no
number. -/
theorem toDecimal_nearest_edges :
    ((ofBits 0x3F98000000000000).toDecimal "price" = .ok (.scaled 23438 6) ∧
      NearestMultiple 6 (3 / 128) (Decimal.scaled 23438 6).toRat) ∧
    (∃ d, (ofBits 0x45EFFFFFFFFFFFFF).toDecimal "price" = .ok d ∧ NearestMultiple 6 (2 ^ 96 - 2 ^ 43) d.toRat) ∧
    (∃ written, (ofBits 0x45F0000000000000).toDecimal "price" =
      .error (.arithmeticOverflow (.outOfRange "price" written))) ∧
    (ofBits 0x7FF8000000000000).toDecimal "price" = .error (.arithmeticOverflow (.notFinite "price")) := by
  have hTie : (ofBits 0x3F98000000000000).toDecimal "price" = .ok (.scaled 23438 6) := by decide +kernel
  refine ⟨⟨hTie, ?_⟩, ?_, ?_, ?_⟩
  · obtain ⟨d, hDecimal, hNearest⟩ := ((toDecimal_nearest 0x3F98000000000000 "price").2 (3 / 128)
      (by decide +kernel)).2 (by norm_num [abs_of_pos])
    rw [hTie] at hDecimal
    cases hDecimal
    exact hNearest
  · exact ((toDecimal_nearest 0x45EFFFFFFFFFFFFF "price").2 (2 ^ 96 - 2 ^ 43) (by decide +kernel)).2
      (by norm_num [abs_of_pos])
  · exact ((toDecimal_nearest 0x45F0000000000000 "price").2 (2 ^ 96) (by decide +kernel)).1
      (by norm_num [abs_of_pos])
  · exact (toDecimal_nearest 0x7FF8000000000000 "price").1 (by decide +kernel)

end Binary64

end BondingCurve
