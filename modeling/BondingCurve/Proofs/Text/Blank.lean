import BondingCurve.Text.Blank
import Mathlib.Data.List.TakeWhile

/-!
# What trimming takes off

A text is blanks, its trimmed text, and blanks again. The blanks around a text do not matter to what is
trimmed, and a text of blanks only leaves nothing.
-/

namespace BondingCurve.Text

variable {cs before after : List Char} {c : Char}

def Blank (cs : List Char) : Prop := ∀ c ∈ cs, isBlank c = true

instance (cs : List Char) : Decidable (Blank cs) :=
  List.decidableBAll _ cs

theorem blank_nil : Blank [] := by simp [Blank]

theorem Blank.not_mem (h : Blank cs) (hc : isBlank c = false) : c ∉ cs := by
  intro hMem
  rw [h c hMem] at hc
  cases hc

theorem blank_reverse_iff : Blank cs.reverse ↔ Blank cs := by simp [Blank]

theorem trimStart_blank_append (h : Blank before) : trimStart (before ++ cs) = trimStart cs :=
  List.dropWhile_append_of_pos h

theorem trimEnd_append_blank (h : Blank after) : trimEnd (cs ++ after) = trimEnd cs := by
  rw [trimEnd, List.reverse_append, List.dropWhile_append_of_pos (blank_reverse_iff.mpr h), trimEnd]

theorem trimStart_eq_nil_iff : trimStart cs = [] ↔ Blank cs := List.dropWhile_eq_nil_iff

theorem trimEnd_eq_nil_iff : trimEnd cs = [] ↔ Blank cs := by
  rw [trimEnd, List.reverse_eq_nil_iff, List.dropWhile_eq_nil_iff]
  exact blank_reverse_iff

theorem exists_trimStart (cs : List Char) : ∃ before, Blank before ∧ cs = before ++ trimStart cs :=
  ⟨cs.takeWhile isBlank, fun _ => List.mem_takeWhile_imp, List.takeWhile_append_dropWhile.symm⟩

theorem exists_trimEnd (cs : List Char) : ∃ after, Blank after ∧ cs = trimEnd cs ++ after := by
  obtain ⟨after, hBlank, hSplit⟩ := exists_trimStart cs.reverse
  refine ⟨after.reverse, blank_reverse_iff.mpr hBlank, ?_⟩
  have hReverse := congrArg List.reverse hSplit
  rwa [List.reverse_reverse, List.reverse_append] at hReverse

/-- A text is its trimmed text with blanks before and after it. -/
theorem exists_surrounding (cs : List Char) :
    ∃ before after, Blank before ∧ Blank after ∧ cs = before ++ trim cs ++ after := by
  obtain ⟨before, hBefore, hStart⟩ := exists_trimStart cs
  obtain ⟨after, hAfter, hEnd⟩ := exists_trimEnd (trimStart cs)
  refine ⟨before, after, hBefore, hAfter, ?_⟩
  rw [trim, List.append_assoc, ← hEnd]
  exact hStart

theorem trim_eq_nil_iff : trim cs = [] ↔ Blank cs := by
  rw [trim, trimEnd_eq_nil_iff]
  obtain ⟨before, hBefore, hStart⟩ := exists_trimStart cs
  constructor
  · intro h
    rw [hStart]
    intro c hc
    obtain hc | hc := List.mem_append.mp hc
    · exact hBefore c hc
    · exact h c hc
  · intro h c hc
    exact h c (hStart ▸ List.mem_append_right before hc)

/-- Blanks on either side of a text are trimmed with its own. -/
theorem trim_surrounded (hBefore : Blank before) (hAfter : Blank after) :
    trim (before ++ cs ++ after) = trim cs := by
  rw [trim, List.append_assoc, trimStart_blank_append hBefore, trim]
  by_cases h : Blank cs
  · rw [trimStart_blank_append h, trimStart_eq_nil_iff.mpr h, trimStart_eq_nil_iff.mpr hAfter]
  · have hStart : trimStart (cs ++ after) = trimStart cs ++ after := by
      rw [trimStart, List.dropWhile_append, if_neg]
      · rfl
      · simpa [Blank] using h
    rw [hStart, trimEnd_append_blank hAfter]

theorem trim_trim (cs : List Char) : trim (trim cs) = trim cs := by
  obtain ⟨before, after, hBefore, hAfter, hText⟩ := exists_surrounding cs
  have hTrim : trim (before ++ trim cs ++ after) = trim (trim cs) := trim_surrounded hBefore hAfter
  rw [← hText] at hTrim
  exact hTrim.symm

/-- The visible characters of ASCII are not blank. -/
theorem isBlank_eq_false_of_visible (hLow : 0x21 ≤ c.toNat) (hHigh : c.toNat ≤ 0x7E) : isBlank c = false := by
  simp only [isBlank, blankRanges, List.any_cons, List.any_nil, Bool.or_false, Bool.or_eq_false_iff,
    Bool.and_eq_false_imp, decide_eq_true_eq, decide_eq_false_iff_not, not_le]
  omega

theorem trim_eq_self_of_forall (h : ∀ c ∈ cs, isBlank c = false) : trim cs = cs :=
  trim_eq_self (fun c hc => h c (List.mem_of_mem_head? hc)) (fun c hc => h c (List.mem_of_getLast? hc))

end BondingCurve.Text
