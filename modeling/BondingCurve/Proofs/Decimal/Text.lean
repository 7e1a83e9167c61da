import BondingCurve.Proofs.Decimal.Value
import BondingCurve.Proofs.Text.Digits

/-!
# Decimals read back

What a decimal is written as reads back to the same mantissa and scale. Only the sign of a zero is lost,
which is no part of its value.
-/

namespace BondingCurve

namespace Decimal

open Text

variable {x : Decimal} {ds rest : List Char} {m s : Nat} {point digit : Bool}

/-- The number without the sign of a zero. -/
def plain (x : Decimal) : Decimal := x.toMagnitude.signed x.negative

@[simp]
theorem scale_plain (x : Decimal) : x.plain.scale = x.scale := rfl

@[simp]
theorem toRat_plain (x : Decimal) : x.plain.toRat = x.toRat := by
  rw [plain, toRat_signed, ← toRat_eq]

theorem plain_equiv (x : Decimal) : x.plain ≈ x := equiv_iff_toRat_eq.mpr x.toRat_plain

theorem plain_eq_self (h : x.mantissa = 0 → x.negative = false) : x.plain = x := by
  have hSign : (x.negative && x.mantissa != 0) = x.negative := by
    by_cases hZero : x.mantissa = 0
    · simp [hZero, h hZero]
    · simp [hZero]
  rw [plain, Magnitude.signed, hSign]

@[simp]
theorem plain_plain (x : Decimal) : x.plain.plain = x.plain := by
  apply plain_eq_self
  intro hZero
  have hMantissa : x.mantissa = 0 := hZero
  change (x.negative && x.mantissa != 0) = false
  simp [hMantissa]

theorem readUnsigned_digit {c : Char} {cs : List Char} (hDigit : c.isDigit = true)
    (hRoom : 10 * m + digitValue c < 2 ^ 96) (hPlaces : s + point.toNat ≤ 28) :
    readUnsigned m s point digit (c :: cs) =
      readUnsigned (10 * m + digitValue c) (s + point.toNat) point true cs := by
  have hScale : (if point then s + 1 else s) = s + point.toNat := by cases point <;> rfl
  rw [readUnsigned, if_pos hDigit, hScale]
  exact if_pos ⟨hRoom, hPlaces⟩

/-- Digits are taken in while the mantissa and the scale have room for all of them. -/
theorem readUnsigned_digits (hDigits : ∀ c ∈ ds, c.isDigit = true)
    (hFits : Nat.ofDigitChars 10 ds m < 2 ^ 96) (hPlaces : s + point.toNat * ds.length ≤ 28) :
    readUnsigned m s point digit (ds ++ rest) =
      readUnsigned (Nat.ofDigitChars 10 ds m) (s + point.toNat * ds.length) point
        (digit || !ds.isEmpty) rest := by
  induction ds generalizing m s digit with
  | nil => simp
  | cons c ds ih =>
    obtain ⟨hFirst, hRest⟩ := List.forall_mem_cons.mp hDigits
    rw [ofDigitChars_cons] at hFits ⊢
    have hScale : s + point.toNat * (c :: ds).length = s + point.toNat + point.toNat * ds.length := by
      rw [List.length_cons]
      ring
    rw [hScale] at hPlaces ⊢
    have hRoom := (le_ofDigitChars ds _).trans_lt hFits
    rw [List.cons_append, readUnsigned_digit hFirst hRoom (by omega), ih hRest hFits hPlaces]
    simp

theorem readUnsigned_whole (n : Nat) (hFits : n < 2 ^ 96) :
    readUnsigned 0 0 false false (Nat.toDigits 10 n ++ rest) = readUnsigned n 0 false true rest := by
  have hDigits : Nat.ofDigitChars 10 (Nat.toDigits 10 n) 0 = n := ofDigits_toDigits n
  rw [readUnsigned_digits isDigit_of_mem_toDigits (hDigits.symm ▸ hFits) (by simp), hDigits]
  have hSome : (Nat.toDigits 10 n).isEmpty = false := List.isEmpty_eq_false_iff.mpr Nat.toDigits_ne_nil
  simp [hSome]

theorem readUnsigned_fraction {whole n width : Nat} (hWidth : 0 < width) (hPlaces : width ≤ 28)
    (hLess : n < 10 ^ width) (hFits : 10 ^ width * whole + n < 2 ^ 96) :
    readUnsigned whole 0 true true (padded width n) = Magnitude.of? (10 ^ width * whole + n) width := by
  have hDigits := ofDigitChars_padded hWidth hLess whole
  have hLength := length_padded hWidth hLess
  rw [← List.append_nil (padded width n), readUnsigned_digits isDigit_of_mem_padded
    (hDigits.symm ▸ hFits) (by simpa [hLength] using hPlaces), hDigits, hLength]
  simp [readUnsigned]

theorem readUnsigned_unsignedChars (x : Magnitude) : readUnsigned 0 0 false false (unsignedChars x) = some x := by
  have hWhole : x.mantissa / 10 ^ x.scale < 2 ^ 96 := (Nat.div_le_self _ _).trans_lt x.mantissa_lt
  rw [unsignedChars]
  split
  · rename_i hScale
    rw [← List.append_nil (Nat.toDigits 10 _), readUnsigned_whole _ hWhole, hScale, pow_zero, Nat.div_one]
    exact Magnitude.of?_eq_some_iff.mpr ⟨rfl, hScale⟩
  · rename_i hScale
    have hLess : x.mantissa % 10 ^ x.scale < 10 ^ x.scale := Nat.mod_lt _ (by positivity)
    have hMantissa := Nat.div_add_mod x.mantissa (10 ^ x.scale)
    have hFits := x.mantissa_lt
    rw [← hMantissa] at hFits
    rw [readUnsigned_whole _ hWhole]
    change readUnsigned _ 0 true true _ = _
    rw [readUnsigned_fraction (Nat.pos_of_ne_zero hScale) x.scale_le hLess hFits, hMantissa]
    exact Magnitude.of?_eq_some_iff.mpr ⟨rfl, rfl⟩

theorem head_unsignedChars (x : Magnitude) : ∃ c cs, unsignedChars x = c :: cs ∧ c.isDigit = true := by
  obtain ⟨c, cs, hDigits, hDigit⟩ := head_toDigits (x.mantissa / 10 ^ x.scale)
  rw [unsignedChars, hDigits]
  split
  · exact ⟨c, cs, rfl, hDigit⟩
  · exact ⟨c, _, rfl, hDigit⟩

theorem readPlain_signed {cs : List Char} (h : ∃ c rest, cs = c :: rest ∧ c.isDigit = true) (negative : Bool) :
    readPlain (if negative then '-' :: cs else cs) =
      (readUnsigned 0 0 false false cs).map (·.signed negative) := by
  obtain ⟨c, rest, rfl, hDigit⟩ := h
  cases negative with
  | true => rfl
  | false =>
    simp only [Bool.false_eq_true, if_false]
    unfold readPlain
    split
    · rename_i hMinus
      cases hMinus
      cases hDigit
    · rename_i hPlus
      cases hPlus
      cases hDigit
    · rfl

theorem readPlain_toChars (x : Decimal) : readPlain x.toChars = some x.plain := by
  rw [toChars, readPlain_signed (head_unsignedChars x.toMagnitude), readUnsigned_unsignedChars,
    Option.map_some, plain]

theorem read?_toChars (x : Decimal) : read? x.toChars = some x.plain := by
  rw [read?, readPlain_toChars, Option.some_or]

/-- Reading what was written gives the decimal back, digit for digit. -/
theorem ofString?_toString (x : Decimal) : ofString? (toString x) = some x.plain := by
  have hChars : (toString x).toList = x.toChars := String.toList_ofList
  rw [ofString?, hChars, read?_toChars]

/-- The characters that numbers are written with. -/
def Numeral (c : Char) : Prop := c.isDigit = true ∨ c = '.' ∨ c = '-'

instance (c : Char) : Decidable (Numeral c) :=
  inferInstanceAs (Decidable (_ ∨ _ ∨ _))

theorem numeral_of_mem_whole {n : Nat} {c : Char} (hc : c ∈ Nat.toDigits 10 n) : Numeral c :=
  .inl (isDigit_of_mem_toDigits c hc)

theorem numeral_of_mem_fraction {n width k : Nat} {c : Char} (hc : c ∈ Nat.toDigits 10 n ++ '.' :: padded width k) :
    Numeral c := by
  rw [List.mem_append, List.mem_cons] at hc
  obtain hWhole | rfl | hFraction := hc
  · exact numeral_of_mem_whole hWhole
  · exact .inr (.inl rfl)
  · exact .inl (isDigit_of_mem_padded c hFraction)

theorem numeral_of_mem_signed {cs : List Char} (h : ∀ c ∈ cs, Numeral c) {negative : Bool} {c : Char}
    (hc : c ∈ if negative then '-' :: cs else cs) : Numeral c := by
  split at hc
  · obtain rfl | hc := List.mem_cons.mp hc
    · exact .inr (.inr rfl)
    · exact h c hc
  · exact h c hc

theorem numeral_of_mem_toChars (x : Decimal) {c : Char} (hc : c ∈ x.toChars) : Numeral c := by
  refine numeral_of_mem_signed (fun c hc => ?_) hc
  rw [unsignedChars] at hc
  split at hc
  · exact numeral_of_mem_whole hc
  · exact numeral_of_mem_fraction hc

end Decimal

end BondingCurve
