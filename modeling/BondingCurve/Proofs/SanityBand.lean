import BondingCurve.Bond.Guards
import BondingCurve.Proofs.Decimal.Division
import BondingCurve.Proofs.Decimal.Error
import BondingCurve.Proofs.Ordinary
import BondingCurve.Proofs.Swap

/-!
# The sanity band of two reserves

The check passes only where the rounded ratio of the reserves was computed and found within computed bounds;
whatever fails on the way counts as a violation. Where the bounds are decimals, rounding never carries a
ratio across one of them, so no ratio within the band raises an alarm, and one that lies further outside than
the rounding of a quotient can reach is always found.
-/

namespace BondingCurve

open Logged Decimal

/-- What the first balance is to the second, before any rounding. -/
def Coins.ratio (balances : Coins) (first second : String) : ℚ :=
  (balances.amountOf first).toRat / (balances.amountOf second).toRat

namespace Bond

variable {bond : Bond} {balances : Coins} {first second : String}

/-- Half the width of the band, before any rounding. -/
def sanityWidth (bond : Bond) : ℚ := bond.sanityRate.toRat * (bond.sanityMargin.toRat / 100)

def sanityLower (bond : Bond) : ℚ := max 0 (bond.sanityRate.toRat - bond.sanityWidth)

def sanityUpper (bond : Bond) : ℚ := bond.sanityRate.toRat + bond.sanityWidth

/-- The band is computed without rounding. -/
structure BandFits (bond : Bond) : Prop where
  share : Exact (bond.sanityMargin.toRat / 100)
  width : Exact bond.sanityWidth
  lower : Exact (bond.sanityRate.toRat - bond.sanityWidth)
  upper : Exact bond.sanityUpper

theorem BandFits.sanityBand (h : bond.BandFits) : ∃ lower upper, bond.sanityBand = .ok (lower, upper) ∧
    lower.toRat = bond.sanityLower ∧ upper.toRat = bond.sanityUpper := by
  obtain ⟨share, hShare, hShareValue⟩ := (computes_div?_hundred bond.sanityMargin).eq_of_exact h.share
  have hProduct := computes_mul? bond.sanityRate share
  rw [hShareValue] at hProduct
  obtain ⟨width, hWidth, hWidthValue⟩ := hProduct.eq_of_exact h.width
  have hSum := computes_add? bond.sanityRate width
  have hDifference := computes_sub? bond.sanityRate width
  rw [hWidthValue] at hSum hDifference
  obtain ⟨upper, hUpper, hUpperValue⟩ := hSum.eq_of_exact h.upper
  obtain ⟨lower, hLower, hLowerValue⟩ := hDifference.eq_of_exact h.lower
  refine ⟨if lower < 0 then 0 else lower, upper, ?_, ?_, hUpperValue⟩
  · simp only [Bond.sanityBand, bind_eq_ok_iff]
    exact ⟨share, checked_eq_ok_iff.mpr hShare, width, checked_eq_ok_iff.mpr hWidth, upper,
      checked_eq_ok_iff.mpr hUpper, lower, checked_eq_ok_iff.mpr hLower, rfl⟩
  · rw [sanityLower, sanityWidth, ← hLowerValue]
    split
    · rename_i hNegative
      rw [toRat_zero, max_eq_left (lt_zero_iff_toRat.mp hNegative).le]
    · rename_i hNonneg
      rw [max_eq_right (not_lt.mp (mt lt_zero_iff_toRat.mpr hNonneg))]

theorem recover_sanityFailed_eq_false_iff {check : Logged Bool} :
    (check.recover bond.sanityFailed).outcome = .ok false ↔ check.outcome = .ok false := by
  cases h : check.outcome with
  | ok violated => rw [recover_ok h, h]
  | error e =>
    by_cases hRoot : e = .unsettledRoot
    · rw [hRoot] at h ⊢
      rw [recover_unsettledRoot h, h]
    · -- a failed check is noted and answered with a violation
      rw [recover_error h hRoot]
      change Except.ok true = .ok false ↔ _
      simp

/-- Without a root nothing stands in the way of an answer. -/
theorem overflowOnly_ratioOutsideBand (f s : Decimal) : OverflowOnly (bond.ratioOutsideBand f s).outcome := by
  have hBand : OverflowOnly bond.sanityBand := by
    refine (OverflowOnly.checked _ _).bind fun _ _ => (OverflowOnly.checked _ _).bind fun _ _ => ?_
    exact (OverflowOnly.checked _ _).bind fun _ _ => (OverflowOnly.checked _ _).bind fun _ _ => .ok _
  unfold ratioOutsideBand
  split
  · exact .ok true
  · rw [outcome_bind]
    refine OverflowOnly.bind (.checked _ _) fun ratio _ => ?_
    rw [outcome_bind]
    exact OverflowOnly.bind hBand fun _ _ => .ok _

theorem ratioOutsideBand_eq_false_iff {f s : Decimal} : (bond.ratioOutsideBand f s).outcome = .ok false ↔
    s.toRat ≠ 0 ∧ ∃ ratio lower upper : Decimal, f.quo s = .ok ratio ∧
      bond.sanityBand = .ok (lower, upper) ∧ lower.toRat ≤ ratio.toRat ∧ ratio.toRat ≤ upper.toRat := by
  have hInBand : ∀ ratio lower upper : Decimal, (decide (ratio < lower) || decide (upper < ratio)) = false ↔
      lower.toRat ≤ ratio.toRat ∧ ratio.toRat ≤ upper.toRat := by
    intro ratio lower upper
    rw [Bool.or_eq_false_iff, decide_eq_false_iff_not, decide_eq_false_iff_not, lt_iff_toRat_lt,
      lt_iff_toRat_lt, not_lt, not_lt]
  unfold ratioOutsideBand
  split
  · rename_i hZero
    simp [isZero_iff_toRat.mp hZero]
  · rename_i hNonzero
    have hs : s.toRat ≠ 0 := mt isZero_iff_toRat.mpr hNonzero
    constructor
    · intro h
      obtain ⟨ratio, hRatio, h⟩ := outcome_bind_eq_ok_iff.mp h
      obtain ⟨⟨lower, upper⟩, hBand, h⟩ := outcome_bind_eq_ok_iff.mp h
      obtain ⟨_, _, h⟩ := outcome_bind_eq_ok_iff.mp h
      exact ⟨hs, ratio, lower, upper, hRatio, hBand, (hInBand _ _ _).mp (Except.ok.inj h)⟩
    · rintro ⟨_, ratio, lower, upper, hRatio, hBand, hWithin⟩
      refine outcome_bind_eq_ok_iff.mpr ⟨ratio, hRatio, ?_⟩
      refine outcome_bind_eq_ok_iff.mpr ⟨(lower, upper), hBand, ?_⟩
      exact outcome_bind_eq_ok_iff.mpr ⟨(), rfl, congrArg Except.ok ((hInBand _ _ _).mpr hWithin)⟩

theorem violatesSanity_eq_false_iff (hTokens : bond.reserves = [first, second])
    (hRate : 0 < bond.sanityRate.toRat) : (bond.violatesSanity balances).outcome = .ok false ↔
      (balances.amountOf second).toRat ≠ 0 ∧ ∃ ratio lower upper : Decimal,
        (balances.amountOf first).quo (balances.amountOf second) = .ok ratio ∧
        bond.sanityBand = .ok (lower, upper) ∧ lower.toRat ≤ ratio.toRat ∧ ratio.toRat ≤ upper.toRat := by
  have hOn : ¬bond.sanityRate.isZero = true := mt isZero_iff_toRat.mp hRate.ne'
  rw [violatesSanity, if_neg hOn, hTokens]
  exact recover_sanityFailed_eq_false_iff.trans ratioOutsideBand_eq_false_iff

theorem exists_recover_sanityFailed {check : Logged Bool} (h : OverflowOnly check.outcome) :
    ∃ violated, (check.recover bond.sanityFailed).outcome = .ok violated := by
  cases hCheck : check.outcome with
  | ok violated => exact ⟨violated, by rw [recover_ok hCheck, hCheck]⟩
  | error e =>
    obtain ⟨cause, rfl⟩ := h e hCheck
    rw [recover_error hCheck nofun]
    exact ⟨true, rfl⟩

/-- The check always answers, so what does not pass is a violation. -/
theorem violatesSanity_eq_true_of_ne (h : (bond.violatesSanity balances).outcome ≠ .ok false) :
    (bond.violatesSanity balances).outcome = .ok true := by
  have hAnswers : ∃ violated, (bond.violatesSanity balances).outcome = .ok violated := by
    unfold violatesSanity
    split
    · exact ⟨false, rfl⟩
    split
    · exact exists_recover_sanityFailed (overflowOnly_ratioOutsideBand _ _)
    · exact ⟨false, rfl⟩
  obtain ⟨_ | _, hAnswer⟩ := hAnswers
  · exact absurd hAnswer h
  · exact hAnswer

section Pair

variable (hTokens : bond.reserves = [first, second]) (hRate : 0 < bond.sanityRate.toRat)
  (hFirst : 0 ≤ (balances.amountOf first).toRat) (hSecond : 0 ≤ (balances.amountOf second).toRat)

include hTokens hRate hFirst

theorem passes_of_within (hFits : bond.BandFits) (hPositive : 0 < (balances.amountOf second).toRat)
    (hLow : bond.sanityLower ≤ balances.ratio first second)
    (hHigh : balances.ratio first second ≤ bond.sanityUpper) :
    (bond.violatesSanity balances).outcome = .ok false := by
  obtain ⟨lower, upper, hBand, hLower, hUpper⟩ := hFits.sanityBand
  -- the ratio is no larger than a decimal, so the quotient fits, and rounding does not cross the edges
  obtain ⟨quotient, hQuotient, hRounds⟩ := (computes_div? hPositive.ne').exists_rounds_of_le_exact
    (div_nonneg hFirst hPositive.le) hFits.upper hHigh
  refine (violatesSanity_eq_false_iff hTokens hRate).mpr
    ⟨hPositive.ne', quotient, lower, upper, checked_eq_ok_iff.mpr hQuotient, hBand, ?_, ?_⟩
  · exact hRounds.le_of_exact lower.exact_toRat (hLower ▸ hLow)
  · exact hRounds.ge_of_exact upper.exact_toRat (hUpper ▸ hHigh)

include hSecond

theorem violates_of_beyond (hFits : bond.BandFits)
    (hBeyond : balances.ratio first second + max 1 (balances.ratio first second) / 10 ^ 28 < bond.sanityLower ∨
      bond.sanityUpper + max 1 (balances.ratio first second) / 10 ^ 28 < balances.ratio first second) :
    (bond.violatesSanity balances).outcome = .ok true := by
  refine violatesSanity_eq_true_of_ne fun hFalse => ?_
  obtain ⟨hNonzero, quotient, lower, upper, hQuotient, hBand, hAbove, hBelow⟩ :=
    (violatesSanity_eq_false_iff hTokens hRate).mp hFalse
  obtain ⟨lower', upper', hBand', hLower, hUpper⟩ := hFits.sanityBand
  obtain ⟨rfl, rfl⟩ := Prod.mk.inj (Except.ok.inj (hBand.symm.trans hBand'))
  have hRounds : RoundsSigned (balances.ratio first second) quotient.toRat :=
    (computes_div? hNonzero).rounds (checked_eq_ok_iff.mp hQuotient)
  obtain ⟨hDown, hUp⟩ := abs_le.mp (hRounds.abs_sub_le_max (div_nonneg hFirst hSecond))
  rcases hBeyond with hUnder | hOver
  · linarith
  · linarith

/-- With a band that needs no rounding, a ratio within it passes, edges included, and one that is outside by more
than a quotient is rounded by is a violation, as is a missing second reserve. Whatever the band, a step that
fails on the way is a violation. -/
theorem sanity_decides_band :
    (bond.BandFits →
      (0 < (balances.amountOf second).toRat → bond.sanityLower ≤ balances.ratio first second →
        balances.ratio first second ≤ bond.sanityUpper →
        (bond.violatesSanity balances).outcome = .ok false) ∧
      ((balances.amountOf second).toRat = 0 ∨
          balances.ratio first second + max 1 (balances.ratio first second) / 10 ^ 28 < bond.sanityLower ∨
          bond.sanityUpper + max 1 (balances.ratio first second) / 10 ^ 28 < balances.ratio first second →
        (bond.violatesSanity balances).outcome = .ok true)) ∧
    ((∃ e, (balances.amountOf first).quo (balances.amountOf second) = .error e) ∨
        (∃ e, bond.sanityBand = .error e) →
      (bond.violatesSanity balances).outcome = .ok true) := by
  have hPass := @violatesSanity_eq_false_iff bond balances first second hTokens hRate
  refine ⟨fun hFits => ⟨passes_of_within hTokens hRate hFirst hFits, ?_⟩, fun hFailed => ?_⟩
  · rintro (hZero | hBeyond)
    · exact violatesSanity_eq_true_of_ne fun hFalse => (hPass.mp hFalse).1 hZero
    · exact violates_of_beyond hTokens hRate hFirst hSecond hFits hBeyond
  · refine violatesSanity_eq_true_of_ne fun hFalse => ?_
    obtain ⟨_, _, _, _, hQuotient, hBand, _⟩ := hPass.mp hFalse
    rcases hFailed with ⟨e, hError⟩ | ⟨e, hError⟩
    · cases hQuotient.symm.trans hError
    · cases hBand.symm.trans hError

end Pair

/-- Two of the first token to one of the second, within five percent. -/
def banded : Bond := { pair with sanityRate := .units 2, sanityMargin := .units 5 }

def pairBalances (first second : Decimal) : Coins :=
  Coins.each pair.reserves (by decide) fun denom => if denom = "aaa" then first else second

theorem banded_bandFits : banded.BandFits where
  share := ⟨.scaled 5 2, by decide +kernel⟩
  width := ⟨.scaled 1 1, by decide +kernel⟩
  lower := ⟨.scaled 19 1, by decide +kernel⟩
  upper := ⟨.scaled 21 1, by decide +kernel⟩

/-- Both edges of the band pass, what lies beyond them does not, and neither does a ratio that overflows. -/
theorem sanity_decides_band_twoToOne :
    (banded.validate .strict).outcome = .ok () ∧
    (banded.violatesSanity (pairBalances (.units 190) (.units 100))).outcome = .ok false ∧
    (banded.violatesSanity (pairBalances (.units 210) (.units 100))).outcome = .ok false ∧
    (banded.violatesSanity (pairBalances (.units 189) (.units 100))).outcome = .ok true ∧
    (banded.violatesSanity (pairBalances (.units 210) (.units 0))).outcome = .ok true ∧
    (Decimal.units (2 ^ 95)).quo (.scaled 1 28) = .error (.arithmeticOverflow (.arithmetic .quo)) ∧
    (banded.violatesSanity (pairBalances (.units (2 ^ 95)) (.scaled 1 28))).outcome = .ok true := by
  have hDecides (f s : Decimal) := @sanity_decides_band banded (pairBalances f s) "aaa" "bbb" rfl
    (by decide +kernel)
  have hOverflows : (Decimal.units (2 ^ 95)).quo (.scaled 1 28) =
      .error (.arithmeticOverflow (.arithmetic .quo)) := by decide +kernel
  refine ⟨by decide +kernel, ?_, ?_, ?_, ?_, hOverflows, ?_⟩
  · exact ((hDecides _ _ (by decide +kernel) (by decide +kernel)).1 banded_bandFits).1 (by decide +kernel)
      (by decide +kernel) (by decide +kernel)
  · exact ((hDecides _ _ (by decide +kernel) (by decide +kernel)).1 banded_bandFits).1 (by decide +kernel)
      (by decide +kernel) (by decide +kernel)
  · exact ((hDecides _ _ (by decide +kernel) (by decide +kernel)).1 banded_bandFits).2 (.inr (.inl (by decide +kernel)))
  · exact ((hDecides _ _ (by decide +kernel) (by decide +kernel)).1 banded_bandFits).2 (.inl (by decide +kernel))
  · exact (hDecides _ _ (by decide +kernel) (by decide +kernel)).2 (.inl ⟨_, hOverflows⟩)

end Bond

end BondingCurve
