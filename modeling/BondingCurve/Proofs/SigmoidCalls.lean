import BondingCurve.Proofs.Procedure
import BondingCurve.Proofs.Quote

/-!
# What a sigmoid calls

With a positive `c` the rounded radicand of a sigmoid is at least `c`, even where `c` is lost in the sum. Its
root, if the iteration settles, is positive and not far below it, so the shift divided by the root is in range.
What is left to fail are sums, differences and products out of range, and iterations that do not settle.
-/

namespace BondingCurve

open Logged Decimal

namespace Decimal

variable {s c square radicand r : Decimal}

theorem exists_quo_of_iterate (hc : 0 ≤ c.toRat) (hSquare : s.mul s = .ok square)
    (hSum : square.add c = .ok radicand) (h : Iterate radicand r) : ∃ q, s.quo r = .ok q := by
  have hSquareRounds := (computes_mul? s s).rounds (checked_eq_ok_iff.mp hSquare)
  have hSumRounds := (computes_add? square c).rounds (checked_eq_ok_iff.mp hSum)
  have hUnit := unit_le h.pos
  have hShift : |s.toRat| ≤ 2 ^ 94 * r.toRat := by
    rcases le_total |s.toRat| 1 with hSmall | hLarge
    · linarith
    · -- from one on the shift is no more than its square, and the root no less than a part of that
      have hSquareLe : |s.toRat| ≤ s.toRat * s.toRat := by
        rw [← abs_mul_abs_self]
        exact le_mul_of_one_le_left (abs_nonneg _) hLarge
      have hLow := hSquareRounds.sub_le (mul_self_nonneg _)
      have hRadicand := hSumRounds.le_of_exact square.exact_toRat (le_add_of_nonneg_right hc)
      linarith [h.arg_le]
  have hBound : |s.toRat / r.toRat| ≤ |((2 ^ 94 : Nat) : ℚ)| := by
    rw [abs_div, abs_of_pos h.pos, Nat.abs_cast, div_le_iff₀ h.pos]
    exact_mod_cast hShift
  obtain ⟨q, hq⟩ := (computes_div? h.pos.ne').exists_of_abs_le_exact (exact_natCast (by decide)) hBound
  exact ⟨q, checked_eq_ok_iff.mpr hq⟩

end Decimal

theorem Call.inOrder_root {v : Decimal} {rounds : Nat} (hv : 0 < v.toRat) : (Call.root v).InOrder rounds := by
  refine ⟨hv, ?_⟩
  cases hRoot : v.rootWithin rounds with
  | ok r => exact .inr ⟨r, rfl, (near_of_rootWithin hv hRoot).1.pos⟩
  | error e => exact .inl ((rootWithin_eq_error_iff hv).mp hRoot).1

namespace Curve

open Procedure

variable {a b c s x root : Decimal} {rounds : Nat} {params : Params} {family : Family}

/-- The calls for `√(s² + c)`. -/
def rootOfSumCalls (s c : Decimal) : Procedure Decimal := do
  make (.root (← make (.add (← make (.mul s s)) c)))

def priceCalls (a b c x : Decimal) : Procedure Decimal := do
  let shifted ← make (.sub x b)
  let root ← rootOfSumCalls shifted c
  let ratio ← make (.quo shifted root)
  make (.mul a (← make (.add ratio 1)))

def reserveCalls (a b c x : Decimal) : Procedure Decimal := do
  let shifted ← make (.sub x b)
  let root ← rootOfSumCalls shifted c
  let upper ← make (.mul a (← make (.add root x)))
  let origin ← rootOfSumCalls b c
  make (.sub upper (← make (.mul a origin)))

theorem eval_priceCalls (a b c x : Decimal) :
    (priceCalls a b c x).eval roundLimit = (sigmoid a b c).priceAt x := by
  simp only [priceCalls, rootOfSumCalls, priceAt, sigmoidRoot, root, eval_bind, eval_make, Call.run,
    bind_assoc, pure_bind]

theorem eval_reserveCalls (a b c x : Decimal) :
    (reserveCalls a b c x).eval roundLimit = ((sigmoid a b c).integral x).outcome := by
  simp only [reserveCalls, rootOfSumCalls, integral, sigmoidIntegral, sigmoidRoot, root, outcome_liftM,
    eval_bind, eval_make, Call.run, bind_assoc, pure_bind]

theorem rootOfSumCalls_inOrder (hc : 0 < c.toRat) :
    ∀ made, (rootOfSumCalls s c).Makes rounds made → made.InOrder rounds := by
  refine forall_makes_bind (forall_makes_make trivial) fun square hSquare => ?_
  refine forall_makes_bind (forall_makes_make trivial) fun radicand hSum => ?_
  rw [eval_make] at hSquare hSum
  exact forall_makes_make (Call.inOrder_root (radicand_pos hc hSquare hSum))

theorem rootOfSumCalls_spec (hc : 0 < c.toRat) (h : (rootOfSumCalls s c).eval rounds = .ok root) :
    ∃ square radicand, s.mul s = .ok square ∧ square.add c = .ok radicand ∧ Iterate radicand root := by
  simp only [rootOfSumCalls, eval_bind, eval_make, bind_eq_ok_iff] at h
  obtain ⟨square, hSquare, radicand, hSum, hRoot⟩ := h
  exact ⟨square, radicand, hSquare, hSum, (near_of_rootWithin (radicand_pos hc hSquare hSum) hRoot).1⟩

theorem priceCalls_inOrder (hc : 0 < c.toRat) :
    ∀ made, (priceCalls a b c x).Makes rounds made → made.InOrder rounds := by
  refine forall_makes_bind (forall_makes_make trivial) fun shifted _ => ?_
  refine forall_makes_bind (rootOfSumCalls_inOrder hc) fun root hRoot => ?_
  obtain ⟨square, radicand, hSquare, hSum, hIterate⟩ := rootOfSumCalls_spec hc hRoot
  have hQuotient : (Call.quo shifted root).InOrder rounds :=
    ⟨hIterate.pos.ne', exists_quo_of_iterate hc.le hSquare hSum hIterate⟩
  refine forall_makes_bind (forall_makes_make hQuotient) fun ratio _ => ?_
  exact forall_makes_bind (forall_makes_make trivial) fun _ _ => forall_makes_make trivial

theorem reserveCalls_inOrder (hc : 0 < c.toRat) :
    ∀ made, (reserveCalls a b c x).Makes rounds made → made.InOrder rounds := by
  refine forall_makes_bind (forall_makes_make trivial) fun shifted _ => ?_
  refine forall_makes_bind (rootOfSumCalls_inOrder hc) fun root _ => ?_
  refine forall_makes_bind (forall_makes_make trivial) fun sum _ => ?_
  refine forall_makes_bind (forall_makes_make trivial) fun upper _ => ?_
  refine forall_makes_bind (rootOfSumCalls_inOrder hc) fun origin _ => ?_
  exact forall_makes_bind (forall_makes_make trivial) fun _ _ => forall_makes_make trivial

/-- The spot price and the reserve of a sigmoid with legal parameters, at any supply and however many rounds the
iterations are given: roots are taken of positive numbers and are positive, unless they do not settle, the one
quotient has a value, and a run of which all roots settle fails only where a sum, a difference or a product is
beyond every decimal, with that overflow. -/
theorem sigmoid_wellPosed (h : ofParams family params = .ok (sigmoid a b c)) (x : Decimal) :
    (priceCalls a b c x).eval roundLimit = (sigmoid a b c).priceAt x ∧
    (reserveCalls a b c x).eval roundLimit = ((sigmoid a b c).integral x).outcome ∧
    ∀ rounds, ∀ p ∈ [priceCalls a b c x, reserveCalls a b c x],
      (∀ made, p.Makes rounds made → made.InOrder rounds) ∧
      ∀ e, p.eval rounds = .error e →
        ∃ made, p.Makes rounds made ∧ (made.Overflows e ∨ made.Unsettled rounds e) := by
  have hFamily : family = .sigmoid := (ofParams_eq_ok_iff.mp h).2.1.symm
  subst hFamily
  obtain ⟨_, _, _, hCurve, _, _, hc⟩ := ofParams_sigmoid h
  cases hCurve
  refine ⟨eval_priceCalls a b c x, eval_reserveCalls a b c x, fun rounds p hp => ?_⟩
  have hOrder : ∀ made, p.Makes rounds made → made.InOrder rounds := by
    simp only [List.mem_cons, List.not_mem_nil, or_false] at hp
    rcases hp with rfl | rfl
    · exact priceCalls_inOrder hc
    · exact reserveCalls_inOrder hc
  exact ⟨hOrder, fun e => exists_overflows_or_unsettled hOrder⟩

/-- The least constant under the root. -/
def leastParams : Params := .ofPairs [("a", .units 3), ("b", .units 5), ("c", .scaled 1 28)]

def leastSigmoid : Curve := sigmoid (.units 3) (.units 5) (.scaled 1 28)

/-- At the midpoint the least constant is all that the root is taken of, and its iteration settles. Far from it
the square does not fit. -/
theorem sigmoid_wellPosed_leastSigmoid :
    ofParams .sigmoid leastParams = .ok leastSigmoid ∧
    (∃ r, (Decimal.scaled 1 28).root = .ok r ∧ 0 < r.toRat) ∧
    leastSigmoid.priceAt (.units (10 ^ 15)) = .error (.arithmeticOverflow (.arithmetic .mul)) ∧
    ∃ made, (priceCalls (.units 3) (.units 5) (.scaled 1 28) (.units (10 ^ 15))).Makes roundLimit made ∧
      made.Overflows (.arithmeticOverflow (.arithmetic .mul)) := by
  have hCurve : ofParams .sigmoid leastParams = .ok leastSigmoid := by decide +kernel
  have hRefused : leastSigmoid.priceAt (.units (10 ^ 15)) = .error (.arithmeticOverflow (.arithmetic .mul)) := by
    decide +kernel
  refine ⟨hCurve, ?_, hRefused, ?_⟩
  · have hShift : (Call.sub (.units 5) (.units 5)).run roundLimit = .ok 0 := by decide +kernel
    have hSquare : (Call.mul 0 0).run roundLimit = .ok 0 := by decide +kernel
    have hSum : (Call.add 0 (.scaled 1 28)).run roundLimit = .ok (.scaled 1 28) := by decide +kernel
    have hMade : (priceCalls (.units 3) (.units 5) (.scaled 1 28) (.units 5)).Makes roundLimit
        (.root (.scaled 1 28)) := .later hShift (.later hSquare (.later hSum .first))
    have hSettles : (Decimal.scaled 1 28).sqrtWithin roundLimit ≠ .unsettled := by decide +kernel
    obtain ⟨_, _, hOrder⟩ := sigmoid_wellPosed hCurve (.units 5)
    exact ((hOrder roundLimit _ (by simp)).1 _ hMade).2.resolve_left hSettles
  · obtain ⟨hPrice, _, hOrder⟩ := sigmoid_wellPosed hCurve (.units (10 ^ 15))
    obtain ⟨made, hMade, hOverflow | hUnsettled⟩ :=
      (hOrder roundLimit _ (by simp)).2 _ (hPrice.trans hRefused)
    · exact ⟨made, hMade, hOverflow⟩
    · cases hUnsettled.eq_unsettledRoot

end Curve

end BondingCurve
