import BondingCurve.Checked
import BondingCurve.Proofs.Decimal.Root

/-!
# What a formula calls

A formula is a procedure: calls of the arithmetic, one after another, each on what the earlier ones returned.
A run makes its calls up to the first that fails, and fails with the error of that call. So where every call
that a run makes is in order and every root settles, an error is that of a sum, a difference or a product which
no decimal can hold.
-/

namespace BondingCurve

/-- Larger than every decimal. -/
def Beyond (v : ℚ) : Prop := ∀ d : Decimal, |d.toRat| < |v|

theorem Computes.beyond_of_checked_eq_error {operation : Operation} {v : ℚ} {o : Option Decimal} {e : Error}
    (h : Computes v o) (hError : Decimal.checked operation o = .error e) :
    Beyond v ∧ e = .arithmeticOverflow (.arithmetic operation) := by
  cases o with
  | some x => cases hError
  | none =>
    cases hError
    refine ⟨fun d => ?_, rfl⟩
    by_contra hLe
    obtain ⟨x, hx⟩ := h.exists_of_abs_le_exact d.exact_toRat (not_lt.mp hLe)
    cases hx

inductive Call
  | add (x y : Decimal)
  | sub (x y : Decimal)
  | mul (x y : Decimal)
  | quo (x y : Decimal)
  | root (x : Decimal)

namespace Call

open Decimal

variable {rounds : Nat} {call : Call} {e : Error}

def run (rounds : Nat) : Call → Except Error Decimal
  | add x y => x.add y
  | sub x y => x.sub y
  | mul x y => x.mul y
  | quo x y => x.quo y
  | root x => x.rootWithin rounds

/-- A root is taken of something positive and is positive if it settles, and a quotient has a divisor and a
value. -/
def InOrder (rounds : Nat) : Call → Prop
  | add _ _ | sub _ _ | mul _ _ => True
  | quo x y => y.toRat ≠ 0 ∧ ∃ q, x.quo y = .ok q
  | root x => 0 < x.toRat ∧
      (x.sqrtWithin rounds = .unsettled ∨ ∃ r, x.rootWithin rounds = .ok r ∧ 0 < r.toRat)

/-- The error of a sum, a difference or a product whose exact value is beyond every decimal. -/
def Overflows : Call → Error → Prop
  | add x y, e => Beyond (x.toRat + y.toRat) ∧ e = .arithmeticOverflow (.arithmetic .add)
  | sub x y, e => Beyond (x.toRat - y.toRat) ∧ e = .arithmeticOverflow (.arithmetic .sub)
  | mul x y, e => Beyond (x.toRat * y.toRat) ∧ e = .arithmeticOverflow (.arithmetic .mul)
  | quo _ _, _ | root _, _ => False

/-- A root whose iteration is given up. -/
def Unsettled (rounds : Nat) : Call → Error → Prop
  | root x, e => x.sqrtWithin rounds = .unsettled ∧ e = .unsettledRoot
  | _, _ => False

theorem Unsettled.eq_unsettledRoot (h : call.Unsettled rounds e) : e = .unsettledRoot := by
  cases call with
  | root x => exact h.2
  | add x y | sub x y | mul x y | quo x y => exact h.elim

theorem InOrder.overflows_or_unsettled (h : call.InOrder rounds) (hRun : call.run rounds = .error e) :
    call.Overflows e ∨ call.Unsettled rounds e := by
  cases call with
  | add x y => exact .inl ((computes_add? x y).beyond_of_checked_eq_error hRun)
  | sub x y => exact .inl ((computes_sub? x y).beyond_of_checked_eq_error hRun)
  | mul x y => exact .inl ((computes_mul? x y).beyond_of_checked_eq_error hRun)
  | quo x y =>
    obtain ⟨_, q, hq⟩ := h
    cases hq.symm.trans hRun
  | root x => exact .inr ((rootWithin_eq_error_iff h.1).mp hRun)

end Call

inductive Procedure (α : Type)
  | done (a : α)
  | call (first : Call) (next : Decimal → Procedure α)

namespace Procedure

variable {α β : Type} {rounds : Nat} {p : Procedure α} {f : α → Procedure β} {P : Call → Prop} {e : Error}

def bind : Procedure α → (α → Procedure β) → Procedure β
  | done a, f => f a
  | call first next, f => call first fun v => (next v).bind f

instance : Monad Procedure where
  pure := done
  bind := bind

def make (call : Call) : Procedure Decimal := .call call done

def eval (rounds : Nat) : Procedure α → Except Error α
  | done a => .ok a
  | call first next => first.run rounds >>= fun v => (next v).eval rounds

/-- The run comes to make this call. -/
inductive Makes (rounds : Nat) : Procedure α → Call → Prop
  | first {first next} : Makes rounds (call first next) first
  | later {first next v made} (h : first.run rounds = .ok v) (hNext : Makes rounds (next v) made) :
    Makes rounds (call first next) made

theorem eval_bind (p : Procedure α) (f : α → Procedure β) :
    (p >>= f).eval rounds = p.eval rounds >>= fun a => (f a).eval rounds := by
  change (bind p f).eval rounds = _
  induction p with
  | done a => rfl
  | call first next ih =>
    rw [bind, eval, eval]
    cases first.run rounds with
    | ok v => exact ih v
    | error e => rfl

theorem eval_make (call : Call) : (make call).eval rounds = call.run rounds := by
  rw [make, eval]
  cases call.run rounds <;> rfl

theorem forall_makes_make {call : Call} (h : P call) : ∀ made, (make call).Makes rounds made → P made := by
  rintro _ (_ | ⟨_, hNext⟩)
  · exact h
  · cases hNext

/-- The calls of a sequence are those of its first part, and those of the second on what the first gave. -/
theorem forall_makes_bind (h : ∀ made, p.Makes rounds made → P made)
    (hNext : ∀ a, p.eval rounds = .ok a → ∀ made, (f a).Makes rounds made → P made) :
    ∀ made, (p >>= f).Makes rounds made → P made := by
  change ∀ made, (bind p f).Makes rounds made → P made
  -- on the first part: once it is done, what is left is the second part on its value
  induction p with
  | done a => exact hNext a rfl
  | call first next ih =>
    rintro made (_ | ⟨hRun, hMade⟩)
    · exact h _ .first
    · refine ih _ (fun made hMade => h made (.later hRun hMade)) (fun a hEval => hNext a ?_) made hMade
      rw [eval, hRun]
      exact hEval

theorem exists_of_eval_eq_error (h : p.eval rounds = .error e) :
    ∃ made, p.Makes rounds made ∧ made.run rounds = .error e := by
  induction p with
  | done a => cases h
  | call first next ih =>
    rw [eval] at h
    cases hRun : first.run rounds with
    | error e' =>
      rw [hRun] at h
      cases h
      exact ⟨first, .first, hRun⟩
    | ok v =>
      rw [hRun] at h
      obtain ⟨made, hMade, hError⟩ := ih v h
      exact ⟨made, .later hRun hMade, hError⟩

/-- Where all calls are in order, only an overflow or a root that does not settle ends a run. -/
theorem exists_overflows_or_unsettled (hOrder : ∀ made, p.Makes rounds made → made.InOrder rounds)
    (h : p.eval rounds = .error e) :
    ∃ made, p.Makes rounds made ∧ (made.Overflows e ∨ made.Unsettled rounds e) := by
  obtain ⟨made, hMade, hError⟩ := exists_of_eval_eq_error h
  exact ⟨made, hMade, (hOrder made hMade).overflows_or_unsettled hError⟩

end Procedure

end BondingCurve
