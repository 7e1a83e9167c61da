import BondingCurve.Proofs.Decimal.Amount
import Mathlib.Order.Bounds.Basic

/-!
# The neighbours of a decimal on a grid

Amounts and whole units are each reached in two ways, toward zero and up. Both hit the next multiple of the
unit there is, for every decimal under either sign, keep the order and change nothing a second time. Of two
ways to write a value they make the same amount, in its one shortest form.
-/

namespace BondingCurve

section Grid

variable {places : Nat} {v w r s : ℚ}

theorem isGreatest_floor_div (places : Nat) (v : ℚ) :
    IsGreatest {u | OnGrid places u ∧ u ≤ v} ((⌊v * 10 ^ places⌋ : ℚ) / 10 ^ places) := by
  have hPow : (0 : ℚ) < 10 ^ places := by positivity
  constructor
  · exact ⟨onGrid_floor_div places _, (div_le_iff₀ hPow).mpr (Int.floor_le _)⟩
  · rintro u ⟨⟨k, hk⟩, hBelow⟩
    have hUnits := mul_le_mul_of_nonneg_right hBelow hPow.le
    rw [hk] at hUnits
    rw [le_div_iff₀ hPow, hk]
    exact_mod_cast Int.le_floor.mpr hUnits

theorem isLeast_ceil_div (places : Nat) (v : ℚ) :
    IsLeast {u | OnGrid places u ∧ v ≤ u} ((⌈v * 10 ^ places⌉ : ℚ) / 10 ^ places) := by
  have hPow : (0 : ℚ) < 10 ^ places := by positivity
  constructor
  · exact ⟨onGrid_ceil_div places _, (le_div_iff₀ hPow).mpr (Int.le_ceil _)⟩
  · rintro u ⟨⟨k, hk⟩, hAbove⟩
    have hUnits := mul_le_mul_of_nonneg_right hAbove hPow.le
    rw [hk] at hUnits
    rw [div_le_iff₀ hPow, hk]
    exact_mod_cast Int.ceil_le.mpr hUnits

/-- The multiple of the unit next to `v` on the side of zero, or `v` itself. -/
structure TowardZero (places : Nat) (v r : ℚ) : Prop where
  below : 0 ≤ v → IsGreatest {u | OnGrid places u ∧ u ≤ v} r
  above : v ≤ 0 → IsLeast {u | OnGrid places u ∧ v ≤ u} r

theorem onGrid_zero (places : Nat) : OnGrid places 0 := by simpa using OnGrid.intCast places 0

theorem TowardZero.nonneg (h : TowardZero places v r) (hv : 0 ≤ v) : 0 ≤ r :=
  (h.below hv).2 ⟨onGrid_zero places, hv⟩

theorem TowardZero.nonpos (h : TowardZero places v r) (hv : v ≤ 0) : r ≤ 0 :=
  (h.above hv).2 ⟨onGrid_zero places, hv⟩

theorem TowardZero.mono (hr : TowardZero places v r) (hs : TowardZero places w s) (h : v ≤ w) : r ≤ s := by
  obtain hv | hv := le_total 0 v
  · have hBelow := (hr.below hv).1
    exact (hs.below (hv.trans h)).2 ⟨hBelow.1, hBelow.2.trans h⟩
  · obtain hw | hw := le_total w 0
    · have hAbove := (hs.above hw).1
      exact (hr.above hv).2 ⟨hAbove.1, h.trans hAbove.2⟩
    · exact (hr.nonpos hv).trans (hs.nonneg hw)

theorem TowardZero.eq_of_onGrid (h : TowardZero places v r) (hv : OnGrid places v) : r = v := by
  obtain hSign | hSign := le_total 0 v
  · have hBelow := h.below hSign
    exact le_antisymm hBelow.1.2 (hBelow.2 ⟨hv, le_rfl⟩)
  · have hAbove := h.above hSign
    exact le_antisymm (hAbove.2 ⟨hv, le_rfl⟩) hAbove.1.2

/-- Off the grid the multiples on either side are one unit apart. -/
theorem next_eq_add_unit (hr : IsGreatest {u | OnGrid places u ∧ u ≤ v} r)
    (hs : IsLeast {u | OnGrid places u ∧ v ≤ u} s) (h : ¬OnGrid places v) :
    r < v ∧ v < s ∧ s = r + 1 / 10 ^ places := by
  have hBelow : r < v := lt_of_le_of_ne hr.1.2 fun hSame => h (hSame ▸ hr.1.1)
  have hAbove : v < s := lt_of_le_of_ne hs.1.2 fun hSame => h (hSame ▸ hs.1.1)
  have hGap := hr.1.1.add_unit_le hs.1.1 (hBelow.trans hAbove)
  have hNext : OnGrid places (r + 1 / 10 ^ places) := hr.1.1.add (onGrid_unit places)
  have hPos : (0 : ℚ) < 1 / 10 ^ places := by positivity
  have hReached : v ≤ r + 1 / 10 ^ places := by
    by_contra hShort
    have hMore := hr.2 ⟨hNext, (not_le.mp hShort).le⟩
    linarith
  exact ⟨hBelow, hAbove, le_antisymm (hs.2 ⟨hNext, hReached⟩) hGap⟩

end Grid

namespace Decimal

variable {x y : Decimal} {places : Nat} {hPlaces : places ≤ 28} {cut up : Decimal → Decimal}

theorem towardZero_truncateTo (x : Decimal) :
    TowardZero places x.toRat (x.truncateTo places hPlaces).toRat where
  below h := by
    rw [toRat_truncateTo_of_nonneg h]
    exact isGreatest_floor_div places x.toRat
  above h := by
    rw [toRat_truncateTo_of_nonpos h]
    exact isLeast_ceil_div places x.toRat

theorem isLeast_ceilTo (x : Decimal) :
    IsLeast {u | OnGrid places u ∧ x.toRat ≤ u} (x.ceilTo places hPlaces).toRat := by
  rw [toRat_ceilTo]
  exact isLeast_ceil_div places x.toRat

/-- Two ways of rounding to a grid, one toward zero and one up. -/
structure Brackets (places : Nat) (cut up : Decimal → Decimal) : Prop where
  cut_next : ∀ x, TowardZero places x.toRat (cut x).toRat
  up_least : ∀ x, IsLeast {u | OnGrid places u ∧ x.toRat ≤ u} (up x).toRat
  on_grid : ∀ x, OnGrid places x.toRat → cut x ≈ x ∧ up x ≈ x
  off_grid : ∀ x, 0 ≤ x → ¬OnGrid places x.toRat →
    cut x < x ∧ x < up x ∧ (up x).toRat = (cut x).toRat + 1 / 10 ^ places
  monotone : ∀ x y, x ≤ y → cut x ≤ cut y ∧ up x ≤ up y
  idempotent : ∀ x, cut (cut x) = cut x ∧ up (up x) = up x

theorem brackets_of_next (hCut : ∀ x, TowardZero places x.toRat (cut x).toRat)
    (hUp : ∀ x, IsLeast {u | OnGrid places u ∧ x.toRat ≤ u} (up x).toRat)
    (hAgain : ∀ x, cut (cut x) = cut x ∧ up (up x) = up x) : Brackets places cut up where
  cut_next := hCut
  up_least := hUp
  on_grid x hGrid := by
    rw [equiv_iff_toRat_eq, equiv_iff_toRat_eq]
    exact ⟨(hCut x).eq_of_onGrid hGrid, le_antisymm ((hUp x).2 ⟨hGrid, le_rfl⟩) (hUp x).1.2⟩
  off_grid x h hGrid := by
    rw [le_iff_toRat_le, toRat_zero] at h
    rw [lt_iff_toRat_lt, lt_iff_toRat_lt]
    exact next_eq_add_unit ((hCut x).below h) (hUp x) hGrid
  monotone x y h := by
    rw [le_iff_toRat_le] at h
    rw [le_iff_toRat_le, le_iff_toRat_le]
    have hAbove := (hUp y).1
    exact ⟨(hCut x).mono (hCut y) h, (hUp x).2 ⟨hAbove.1, h.trans hAbove.2⟩⟩
  idempotent := hAgain

/-- No zero ends the fraction, and zero has no sign. -/
structure Shortest (x : Decimal) : Prop where
  places : x.scale = 0 ∨ x.mantissa % 10 ≠ 0
  sign : x.mantissa = 0 → x.negative = false

theorem shortest_normalize (x : Decimal) : x.normalize.Shortest := by
  rw [normalize]
  split
  · exact ⟨.inl rfl, fun _ => rfl⟩
  · rename_i hNonzero
    refine ⟨Magnitude.scale_dropZeros le_rfl, fun hZero => ?_⟩
    have hValue : (x.toMagnitude.dropZeros x.scale).toRat = 0 := Magnitude.toRat_eq_zero_iff.mpr hZero
    rw [Magnitude.toRat_dropZeros, Magnitude.toRat_eq_zero_iff] at hValue
    exact absurd (isZero_iff_toRat.mpr (toRat_eq_zero_iff.mpr hValue)) hNonzero

theorem quantize_quantize (x : Decimal) : x.quantize.quantize = x.quantize := by
  have hCut : (x.quantize.truncateTo amountPlaces).toRat = (x.truncateTo amountPlaces).toRat := by
    rw [truncateTo_eq_self_of_onGrid (isAmount_quantize x), quantize, toRat_normalize]
  exact normalize_eq hCut

theorem quantizeUp_quantizeUp (x : Decimal) : x.quantizeUp.quantizeUp = x.quantizeUp := by
  have hCeil : (x.quantizeUp.ceilTo amountPlaces).toRat = (x.ceilTo amountPlaces).toRat := by
    rw [toRat_ceilTo, (isAmount_quantizeUp x).ceil_div, quantizeUp, toRat_normalize]
  exact normalize_eq hCeil

theorem brackets_amounts : Brackets amountPlaces quantize quantizeUp := by
  apply brackets_of_next
  · intro x
    rw [quantize, toRat_normalize]
    exact x.towardZero_truncateTo
  · intro x
    rw [quantizeUp, toRat_normalize]
    exact x.isLeast_ceilTo
  · exact fun x => ⟨x.quantize_quantize, x.quantizeUp_quantizeUp⟩

theorem brackets_units : Brackets 0 truncateUnits ceilUnits := by
  apply brackets_of_next
  · exact fun x => x.towardZero_truncateTo
  · exact fun x => x.isLeast_ceilTo
  · -- what has no fraction is handed back as it is written
    exact fun x => ⟨if_pos x.scale_truncateTo_le, dif_pos x.scale_ceilTo_le⟩

/-- Every decimal has its neighbours on the grid of amounts and on that of whole units, as decimals again;
and equal values have the same amounts, written in one way. -/
theorem rounded_between_neighbours :
    Brackets amountPlaces quantize quantizeUp ∧ Brackets 0 truncateUnits ceilUnits ∧
    ∀ x y : Decimal, x ≈ y → (x.quantize = y.quantize ∧ x.quantize.Shortest) ∧
      x.quantizeUp = y.quantizeUp ∧ x.quantizeUp.Shortest := by
  refine ⟨brackets_amounts, brackets_units, fun x y h => ?_⟩
  have hValue := equiv_iff_toRat_eq.mp h
  exact ⟨⟨quantize_eq hValue, shortest_normalize _⟩, quantizeUp_eq hValue, shortest_normalize _⟩

/-- The largest mantissa under the largest scale. -/
def longest : Decimal := .scaled (2 ^ 96 - 1) 28

/-- Rounded up, the nine before the cut carries and the zero that is left comes off. -/
theorem rounded_between_neighbours_longest :
    longest.quantize = .scaled 7922816251426433759 18 ∧ longest.quantizeUp = .scaled 792281625142643376 17 ∧
    longest.quantize < longest ∧ longest < longest.quantizeUp ∧ longest.negate.quantize ≤ longest.quantize ∧
    (Decimal.scaled 150 2).quantizeUp = (Decimal.scaled 15 1).quantizeUp := by
  obtain ⟨hAmounts, _, hWritten⟩ := rounded_between_neighbours
  have hCut : longest.quantize = .scaled 7922816251426433759 18 := by decide +kernel
  have hOff : ¬OnGrid amountPlaces longest.toRat := by
    intro hGrid
    have hSame := toRat_quantize_of_isAmount hGrid
    rw [hCut, ← equiv_iff_toRat_eq] at hSame
    exact absurd hSame (by decide +kernel)
  obtain ⟨hBelow, hAbove, _⟩ := hAmounts.off_grid longest (by decide +kernel) hOff
  have hOrder := (hAmounts.monotone longest.negate longest (by decide +kernel)).1
  exact ⟨hCut, by decide +kernel, hBelow, hAbove, hOrder, (hWritten _ _ (by decide +kernel)).2.1⟩

end Decimal

end BondingCurve
