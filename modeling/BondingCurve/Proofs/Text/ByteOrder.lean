import Mathlib.Tactic.SplitIfs

/-!
# Texts in the order of their bytes

Denominations are compared character by character. In UTF-8 that is the order of the bytes: of two
different characters the later one has the larger bytes, whatever follows.
-/

namespace BondingCurve.Text

/-- The bytes of a text in UTF-8. -/
def bytes (s : String) : List UInt8 := s.toUTF8.data.toList

section Bytes

variable {m n : Nat} {c d : Char} {s t : String}

theorem ofNat_lt_ofNat_iff (hm : m < 256) (hn : n < 256) : UInt8.ofNat m < UInt8.ofNat n ↔ m < n :=
  UInt8.ofNat_lt_iff_lt hm hn

theorem ofNat_inj_iff (hm : m < 256) (hn : n < 256) : UInt8.ofNat m = UInt8.ofNat n ↔ m = n := by
  rw [← UInt8.toNat_inj, UInt8.toNat_ofNat', UInt8.toNat_ofNat']
  omega

theorem div_lt_or_mod_lt (h : m < n) : m / 64 < n / 64 ∨ m / 64 = n / 64 ∧ m % 64 < n % 64 := by
  omega

theorem code_lt (c : Char) : c.val.toNat < 1114112 := by
  rcases c.valid with h | h <;> omega

/-- Codes of one length are compared by their digits to base 64, from the first on; a longer code starts
with a larger byte. -/
theorem utf8EncodeChar_append_lt (h : c < d) (cs ds : List UInt8) :
    String.utf8EncodeChar c ++ cs < String.utf8EncodeChar d ++ ds := by
  have hLess : c.val.toNat < d.val.toNat := h
  have hBound := code_lt d
  unfold String.utf8EncodeChar
  generalize c.val.toNat = v at *
  generalize d.val.toNat = w at *
  have hLast := div_lt_or_mod_lt hLess
  have hThird := div_lt_or_mod_lt (m := v / 64) (n := w / 64)
  have hSecond := div_lt_or_mod_lt (m := v / 4096) (n := w / 4096)
  rw [Nat.div_div_eq_div_mul, Nat.div_div_eq_div_mul] at hThird hSecond
  have hFirst : v / 262144 % 8 = v / 262144 := Nat.mod_eq_of_lt (by omega)
  have hFirst' : w / 262144 % 8 = w / 262144 := Nat.mod_eq_of_lt (by omega)
  dsimp only
  split_ifs <;> simp (disch := omega) only [List.cons_append, List.nil_append, List.cons_lt_cons_iff,
    ofNat_lt_ofNat_iff, ofNat_inj_iff] <;> omega

theorem bytes_eq_flatMap (s : String) : bytes s = s.toList.flatMap String.utf8EncodeChar := by
  rw [bytes, String.toUTF8, ← String.utf8Encode_toList, List.utf8Encode, List.data_toByteArray]

theorem flatMap_utf8EncodeChar_lt {cs ds : List Char} (h : cs < ds) :
    cs.flatMap String.utf8EncodeChar < ds.flatMap String.utf8EncodeChar := by
  induction cs generalizing ds with
  | nil =>
    cases ds with
    | nil => exact absurd h (List.lt_irrefl _)
    | cons d ds =>
      rw [List.flatMap_nil, List.flatMap_cons]
      cases hBytes : String.utf8EncodeChar d with
      | nil => exact absurd hBytes String.utf8EncodeChar_ne_nil
      | cons b bs => exact List.nil_lt_cons _ _
  | cons c cs ih =>
    cases ds with
    | nil => cases h
    | cons d ds =>
      rw [List.flatMap_cons, List.flatMap_cons]
      rcases List.cons_lt_cons_iff.mp h with hFirst | ⟨rfl, hRest⟩
      · exact utf8EncodeChar_append_lt hFirst _ _
      · exact List.append_left_lt (ih hRest)

theorem bytes_lt_of_lt (h : s < t) : bytes s < bytes t := by
  rw [bytes_eq_flatMap, bytes_eq_flatMap]
  exact flatMap_utf8EncodeChar_lt h

theorem bytes_lt_iff : bytes s < bytes t ↔ s < t := by
  refine ⟨fun h => ?_, bytes_lt_of_lt⟩
  by_cases hEq : s = t
  · exact absurd (hEq ▸ h) (List.lt_irrefl _)
  · apply Decidable.byContradiction
    intro hNot
    have hAbove : t < s := Std.lt_of_le_of_ne (String.not_lt.mp hNot) (Ne.symm hEq)
    exact List.lt_asymm h (bytes_lt_of_lt hAbove)

theorem bytes_le_iff : bytes s ≤ bytes t ↔ s ≤ t := by
  rw [← List.not_lt, ← String.not_lt, bytes_lt_iff]

end Bytes

end BondingCurve.Text
