import BondingCurve.Checked
import BondingCurve.Proofs.Decimal.Canonical
import BondingCurve.Proofs.Decimal.Error

/-!
# How good the approximate root is

A rounded Newton round ends at the root or above, but for a few parts in `10 ^ 28` and one unit of the
last place, wherever it starts. Above the root it halves the distance, up to roundings of the same size,
so a value that a round leaves as it is exceeds the root by such roundings only. An iteration that has
settled is thus near the root. One that comes to two values which lead to each other never settles.
-/

namespace BondingCurve

def ReachesRoot (v r : ℚ) : Prop := v ≤ ((1 + 4 / 10 ^ 28) * (r + 1 / 10 ^ 28)) ^ 2

/-- `r` reaches the root of `v` and exceeds nothing whose square does, both within rounding. -/
structure NearRoot (v r : ℚ) : Prop where
  pos : 0 < r
  reaches : ReachesRoot v r
  le_add : ∀ w, 0 < w → v ≤ w ^ 2 → r ≤ w + (29 * w + 10) / 10 ^ 28

section Round

variable {v r q t s w e : ℚ}

theorem le_mean_sq (hr : 0 < r) : v ≤ ((r + v / r) / 2) ^ 2 := by
  have hProduct : r * (v / r) = v := mul_div_cancel₀ v hr.ne'
  have hSquare := sq_nonneg ((r - v / r) / 2)
  nlinarith

theorem reachesRoot_of_round (hv : 0 ≤ v) (hr : 0 < r) (hq : v / r - (1 / 2 + v / r) / 10 ^ 28 ≤ q)
    (ht : r + q - (1 / 2 + (r + q)) / 10 ^ 28 ≤ t) (hs : t / 2 - (1 / 2 + t / 2) / 10 ^ 28 ≤ s) :
    ReachesRoot v s := by
  have hShare : 0 ≤ v / r := div_nonneg hv hr.le
  have hMean : (r + v / r) / 2 ≤ (1 + 4 / 10 ^ 28) * (s + 1 / 10 ^ 28) := by linarith
  exact (le_mean_sq hr).trans (pow_le_pow_left₀ (by positivity) hMean 2)

theorem round_le_mean (hv : 0 ≤ v) (hr : 0 < r) (hq : q ≤ v / r + (1 / 2 + v / r) / 10 ^ 28)
    (ht : t ≤ r + q + (1 / 2 + (r + q)) / 10 ^ 28) (hs : s ≤ t / 2 + (1 / 2 + t / 2) / 10 ^ 28) :
    s ≤ (1 + 4 / 10 ^ 28) * ((r + v / r) / 2) + 2 / 10 ^ 28 := by
  have hShare : 0 ≤ v / r := div_nonneg hv hr.le
  linarith

/-- Above the root a round goes half of the way, so it stays only where the roundings hold it. -/
theorem le_of_round_self (hw : 0 < w) (hv : v ≤ w ^ 2) (hr : 0 < r)
    (hMean : r ≤ (1 + 4 / 10 ^ 28) * ((r + v / r) / 2) + 2 / 10 ^ 28) : r ≤ w + (29 * w + 10) / 10 ^ 28 := by
  rcases le_total r w with hBelow | hAbove
  · have hSlack : 0 ≤ (29 * w + 10) / 10 ^ 28 := by positivity
    linarith
  · have hShare : v / r ≤ w := by
      rw [div_le_iff₀ hr]
      nlinarith
    linarith

/-- The same upper bound without a bound on the root: solved for the root, it squares below `v`. -/
theorem NearRoot.sq_le (h : NearRoot v r) (hv : 0 < v) (hLarge : 10 / 10 ^ 28 ≤ r) :
    ((r - 10 / 10 ^ 28) / (1 + 29 / 10 ^ 28)) ^ 2 ≤ v := by
  by_contra hLess
  rw [not_le] at hLess
  have hFactor : (0 : ℚ) < 1 + 29 / 10 ^ 28 := by norm_num
  generalize hy : (r - 10 / 10 ^ 28) / (1 + 29 / 10 ^ 28) = y at hLess
  have hr : r = y * (1 + 29 / 10 ^ 28) + 10 / 10 ^ 28 := by
    rw [← hy, div_mul_cancel₀ _ hFactor.ne']
    ring
  have hyNonneg : 0 ≤ y := by
    rw [← hy]
    exact div_nonneg (by linarith) hFactor.le
  have hyPos : 0 < y := by
    refine lt_of_le_of_ne hyNonneg fun hZero => ?_
    rw [← hZero] at hLess
    linarith
  -- the mean of `y` and `v / y` lies below `y`, and its square above `v`
  have hShare : v / y < y := by
    rw [div_lt_iff₀ hyPos]
    linarith
  have hMean := h.le_add _ (by positivity) (le_mean_sq (v := v) hyPos)
  linarith

end Round

namespace Decimal

variable {x r s : Decimal} {n : Nat} {w d : ℚ}

theorem unit_le (h : 0 < r.toRat) : 1 / 10 ^ 28 ≤ r.toRat := by
  have hUnit := toRat_add_unit_le (x := 0) (y := r) (by rwa [toRat_zero])
  rwa [toRat_zero, zero_add] at hUnit

theorem toRat_two : two.toRat = 2 := toRat_ofNat 2 (by decide)

/-- An approximation from which a round for the root of `x` cannot fail. -/
structure Iterate (x r : Decimal) : Prop where
  pos : 0 < r.toRat
  le : r.toRat ≤ 2 ^ 95 + 8
  arg_le : x.toRat ≤ 2 ^ 50 * r.toRat

theorem iterate_of_reachesRoot (hx : 0 < x.toRat) (hs : 0 ≤ s.toRat) (hLe : s.toRat ≤ 2 ^ 95 + 8)
    (hReaches : ReachesRoot x.toRat s.toRat) : Iterate x s := by
  have hxUnit := unit_le hx
  have hPos : 0 < s.toRat := by
    refine lt_of_le_of_ne hs fun hZero => ?_
    rw [ReachesRoot, ← hZero] at hReaches
    norm_num at hReaches hxUnit
    linarith
  refine ⟨hPos, hLe, ?_⟩
  rcases le_total s.toRat (2 ^ 46) with hSmall | hLarge
  · have hUnit := unit_le hPos
    have hDouble : (1 + 4 / 10 ^ 28) * (s.toRat + 1 / 10 ^ 28) ≤ 3 * s.toRat := by linarith
    have hSquare := hReaches.trans (pow_le_pow_left₀ (by positivity) hDouble 2)
    nlinarith
  · have hxLt := x.toMagnitude.toRat_lt
    rw [← toRat_of_nonneg hx.le] at hxLt
    linarith

theorem exists_half (hx : 0 ≤ x.toRat) :
    ∃ half, x.div? two = some half ∧ RoundsSigned (x.toRat / 2) half.toRat := by
  have hTwo : two.toRat ≠ 0 := by
    rw [toRat_two]
    norm_num
  have hComputes := computes_div? (x := x) hTwo
  rw [toRat_two] at hComputes
  exact hComputes.exists_rounds_of_le_exact (by positivity) x.exact_toRat (half_le_self hx)

theorem Iterate.exists_round (h : Iterate x r) (hx : 0 < x.toRat) :
    ∃ s, rootRound x r = some s ∧ Iterate x s ∧ ReachesRoot x.toRat s.toRat ∧
      s.toRat ≤ (1 + 4 / 10 ^ 28) * ((r.toRat + x.toRat / r.toRat) / 2) + 2 / 10 ^ 28 := by
  have hShare : 0 ≤ x.toRat / r.toRat := div_nonneg hx.le h.pos.le
  have hShareLe : x.toRat / r.toRat ≤ (2 ^ 50 : Nat) := by
    rw [div_le_iff₀ h.pos]
    exact_mod_cast h.arg_le
  obtain ⟨q, hq, hqRounds⟩ := (computes_div? h.pos.ne').exists_rounds_of_le_exact hShare
    (exact_natCast (by decide)) hShareLe
  have hqHigh := hqRounds.le_add hShare
  have hSum : 0 ≤ r.toRat + q.toRat := add_nonneg h.pos.le (hqRounds.nonneg hShare)
  have hSumLe : r.toRat + q.toRat ≤ (2 ^ 95 + 2 ^ 51 : Nat) := by
    push_cast at hShareLe ⊢
    linarith [h.le]
  obtain ⟨t, ht, htRounds⟩ := (computes_add? r q).exists_rounds_of_le_exact hSum
    (exact_natCast (by decide)) hSumLe
  have htNonneg := htRounds.nonneg hSum
  obtain ⟨s, hs, hsRounds⟩ := exists_half htNonneg
  have hHalf : 0 ≤ t.toRat / 2 := by positivity
  have hMean := round_le_mean hx.le h.pos hqHigh (htRounds.le_add hSum) (hsRounds.le_add hHalf)
  have hReaches := reachesRoot_of_round hx.le h.pos (hqRounds.sub_le hShare) (htRounds.sub_le hSum)
    (hsRounds.sub_le hHalf)
  have hLe : s.toRat ≤ 2 ^ 95 + 8 := by
    push_cast at hShareLe
    linarith [h.le]
  refine ⟨s, ?_, iterate_of_reachesRoot hx (hsRounds.nonneg hHalf) hLe hReaches, hReaches, hMean⟩
  simp only [rootRound, hq, ht, hs, Option.bind_eq_bind, Option.bind_some]

theorem exists_rootSeed (hx : 0 < x.toRat) : ∃ seed, rootSeed x = some seed ∧ Iterate x seed := by
  have hxLt := x.toMagnitude.toRat_lt
  rw [← toRat_of_nonneg hx.le] at hxLt
  have hHalf : 0 ≤ x.toRat / 2 := by positivity
  obtain ⟨half, hDivision, hRounds⟩ := exists_half hx.le
  have hHigh := hRounds.le_add hHalf
  have hLow := hRounds.sub_le hHalf
  refine ⟨if half.isZero then x else half, by rw [rootSeed, hDivision]; rfl, ?_⟩
  split
  · rename_i hZero
    rw [isZero_iff_toRat.mp hZero] at hLow
    exact ⟨hx, by linarith, by linarith⟩
  · rename_i hNonzero
    have hPos : 0 < half.toRat :=
      lt_of_le_of_ne (hRounds.nonneg hHalf) (Ne.symm (mt isZero_iff_toRat.mpr hNonzero))
    have hUnit := unit_le hPos
    exact ⟨hPos, by linarith, by linarith⟩

/-- Wherever it starts, an iteration that settles is near the root, and could go on from there. -/
theorem Iterate.of_rootFrom (h : Iterate x r) (hx : 0 < x.toRat) (hRun : rootFrom x r n = some s) :
    Iterate x s ∧ NearRoot x.toRat s.toRat := by
  induction n generalizing r with
  | zero => cases hRun
  | succ n ih =>
    obtain ⟨t, hRound, hIterate, hReaches, hMean⟩ := h.exists_round hx
    rw [rootFrom, hRound, Option.bind_some] at hRun
    split at hRun
    · rename_i hStop
      cases hRun
      -- the value repeats, so the bound of the round is a bound on itself
      rw [← equiv_iff_toRat_eq.mp hStop] at hMean
      exact ⟨hIterate, hIterate.pos, hReaches, fun w hw hSquare => le_of_round_self hw hSquare hIterate.pos hMean⟩
    · exact ih hIterate hRun

section Within

variable {rounds : Nat} {e : Error}

theorem near_of_rootWithin (hx : 0 < x.toRat) (h : x.rootWithin rounds = .ok r) :
    Iterate x r ∧ NearRoot x.toRat r.toRat := by
  obtain ⟨seed, hSeed, hIterate⟩ := exists_rootSeed hx
  rw [rootWithin, sqrtWithin_of_pos hx] at h
  cases hRun : x.rootIteration rounds with
  | none =>
    rw [hRun] at h
    cases h
  | some s =>
    rw [hRun] at h
    cases h
    rw [rootIteration, hSeed] at hRun
    exact hIterate.of_rootFrom hx hRun

theorem rootWithin_eq_error_iff (hx : 0 < x.toRat) :
    x.rootWithin rounds = .error e ↔ x.sqrtWithin rounds = .unsettled ∧ e = .unsettledRoot := by
  rw [rootWithin, sqrtWithin_of_pos hx]
  cases x.rootIteration rounds with
  | none => simp [Root.ofIteration, eq_comm]
  | some s => simp [Root.ofIteration]

end Within

theorem rootFrom_add (h : rootFrom x r n = some s) (k : Nat) : rootFrom x r (n + k) = some s := by
  induction n generalizing r with
  | zero => cases h
  | succ n ih =>
    rw [Nat.add_right_comm]
    simp only [rootFrom, Option.bind_eq_some_iff] at h ⊢
    obtain ⟨t, hRound, hNext⟩ := h
    refine ⟨t, hRound, ?_⟩
    split at hNext
    · rename_i hStop
      rw [if_pos hStop, hNext]
    · rename_i hGo
      rw [if_neg hGo, ih hNext]

def Leads (x r s : Decimal) : Prop := rootRound x r = some s ∧ ¬s ≈ r

instance (x r s : Decimal) : Decidable (Leads x r s) := inferInstanceAs (Decidable (_ ∧ _))

theorem Leads.rootFrom_succ (h : Leads x r s) (n : Nat) : rootFrom x r (n + 1) = rootFrom x s n := by
  rw [rootFrom, h.1, Option.bind_some, if_neg h.2]

theorem rootFrom_of_isChain {path : List Decimal} (h : (r :: path).IsChain (Leads x)) (n : Nat) :
    rootFrom x r (n + path.length) = rootFrom x (path.getLastD r) n := by
  induction path generalizing r with
  | nil => rfl
  | cons s path ih =>
    obtain ⟨hFirst, hRest⟩ := List.isChain_cons_cons.mp h
    rw [List.length_cons, ← Nat.add_assoc, hFirst.rootFrom_succ, ih hRest, List.getLastD_cons]

/-- Between two values that lead to each other no number of rounds is enough. -/
theorem rootFrom_eq_none_of_alternating (hThere : Leads x r s) (hBack : Leads x s r) (n : Nat) :
    rootFrom x r n = none ∧ rootFrom x s n = none := by
  induction n with
  | zero => exact ⟨rfl, rfl⟩
  | succ n ih =>
    rw [hThere.rootFrom_succ, hBack.rootFrom_succ]
    exact ih.symm

/-- The root of this is near `2 ^ 96 / 10 ^ 28`, where decimals lose their last place. -/
def restless : Decimal := .scaled 62771017353866807638357894232 27

def restlessSeed : Decimal := .scaled 31385508676933403819178947116 27

def restlessAbove : Decimal := .scaled 7922816251426433759354395034 27

def restlessBelow : Decimal := .scaled 79228162514264337593543950335 28

def restlessPath : List Decimal :=
  [.scaled 16692754338466701909589473558 27, .scaled 10226564706925006206239312451 27,
    .scaled 8182300110293439380877333771 27, .scaled 7926930734646610914961994764 27,
    .scaled 792281731924024062959213769 26, .scaled 7922816251426505717742440516 27, restlessAbove]

theorem rootFrom_restlessSeed (n : Nat) : rootFrom restless restlessSeed n = none := by
  have hPath : (restlessSeed :: restlessPath).IsChain (Leads restless) := by decide +kernel
  have hThere : Leads restless restlessAbove restlessBelow := by decide +kernel
  have hBack : Leads restless restlessBelow restlessAbove := by decide +kernel
  have hLater : rootFrom restless restlessSeed (n + restlessPath.length) = none := by
    rw [rootFrom_of_isChain hPath n]
    exact (rootFrom_eq_none_of_alternating hThere hBack n).1
  cases hRun : rootFrom restless restlessSeed n with
  | none => rfl
  | some s => cases hLater.symm.trans (rootFrom_add hRun _)

theorem sqrtWithin_restless (rounds : Nat) : restless.sqrtWithin rounds = .unsettled := by
  have hSeed : rootSeed restless = some restlessSeed := by decide +kernel
  have hPos : 0 < restless.toRat := by decide +kernel
  rw [sqrtWithin_of_pos hPos, rootIteration, hSeed, Option.bind_eq_bind, Option.bind_some, rootFrom_restlessSeed]
  rfl

end Decimal

end BondingCurve
