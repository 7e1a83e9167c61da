import BondingCurve.Coins
import BondingCurve.Curve

/-!
# How the arithmetic fails

Checks, arithmetic, lookups and the formulas of the curves fail neither with a violation nor over a
repeated denomination. Only the integral of a swapper, which has none, is a violation. Arithmetic
without roots only overflows.
-/

namespace BondingCurve

/-- A sequence fails only as its steps do, the second on a value that the first has given. -/
theorem forall_error_bind {α β : Type} {p : Error → Prop} {x : Except Error α} {f : α → Except Error β}
    (h : ∀ e, x = .error e → p e) (hNext : ∀ a, x = .ok a → ∀ e, f a = .error e → p e) :
    ∀ e, x >>= f = .error e → p e := by
  cases x with
  | ok a => exact hNext a rfl
  | error e =>
    rintro _ ⟨⟩
    exact h e rfl

def Error.isOrdinary : Error → Bool
  | duplicateDenom _ | violation _ => false
  | _ => true

def Ordinary {α : Type} (outcome : Except Error α) : Prop :=
  ∀ e, outcome = .error e → e.isOrdinary = true

namespace Ordinary

variable {α β : Type}

theorem ok (a : α) : Ordinary (.ok a : Except Error α) := nofun

theorem refusal {e : Error} (h : e.isOrdinary = true) : Ordinary (.error e : Except Error α) := by
  rintro _ ⟨⟩
  exact h

theorem bind {x : Except Error α} {f : α → Except Error β} (h : Ordinary x)
    (hNext : ∀ a, Ordinary (f a)) : Ordinary (x >>= f) := forall_error_bind h fun a _ => hNext a

theorem refuseIf {p : Prop} [Decidable p] {e : Error} (h : e.isOrdinary = true) :
    Ordinary (refuseIf p e) := by
  rw [BondingCurve.refuseIf]
  split
  · exact refusal h
  · exact ok ()

theorem sign (x : Decimal) (name : String) : Ordinary (x.ensureNonNegative name) := refuseIf rfl

theorem signs (coins : Coins) (name : String) : Ordinary (coins.ensureNonNegative name) := refuseIf rfl

theorem checked (operation : Operation) (r : Option Decimal) : Ordinary (Decimal.checked operation r) := by
  cases r with
  | none => exact refusal rfl
  | some x => exact ok x

theorem root (x : Decimal) : Ordinary x.root := by
  rw [Decimal.root, Decimal.rootWithin]
  split
  · exact ok _
  · exact refusal rfl
  · exact refusal rfl

theorem toWord (x : Decimal) (name : String) : Ordinary (x.toWord name) := by
  rw [Decimal.toWord]
  split
  · exact ok _
  · exact refusal rfl

theorem valueOf (params : Params) (name : String) : Ordinary (params.valueOf name) := by
  rw [Params.valueOf]
  split
  · exact ok _
  · exact refusal rfl

theorem checkNames (params : Params) (names : List String) : Ordinary (names.forM params.checkNamed) := by
  induction names with
  | nil => exact ok _
  | cons name names ih =>
    rw [List.forM_eq_forM, List.forM_cons]
    exact ((valueOf params name).bind fun _ => refuseIf rfl).bind fun _ => ih

theorem validateParams (params : Params) (family : Family) : Ordinary (params.validate family) := by
  refine (refuseIf rfl).bind fun _ => (checkNames params _).bind fun _ => ?_
  cases family with
  | power => exact (valueOf params _).bind fun _ => refuseIf rfl
  | sigmoid => exact (valueOf params _).bind fun _ => refuseIf rfl
  | swapper => exact ok _
  | augmented => exact ok _

theorem ofParams (family : Family) (params : Params) : Ordinary (Curve.ofParams family params) := by
  have hValue := valueOf params
  refine (validateParams params family).bind fun _ => ?_
  cases family with
  | power =>
    refine (hValue _).bind fun _ => (hValue _).bind fun _ => (toWord _ _).bind fun _ => ?_
    exact (hValue _).bind fun _ => ok _
  | sigmoid => exact (hValue _).bind fun _ => (hValue _).bind fun _ => (hValue _).bind fun _ => ok _
  | swapper => exact ok _
  | augmented =>
    refine (hValue _).bind fun _ => (hValue _).bind fun _ => ?_
    exact (hValue _).bind fun _ => (hValue _).bind fun _ => ok _

theorem toDecimal (x : Binary64) (operation : String) : Ordinary (x.toDecimal operation) := by
  cases x with
  | finite negative mantissa exponent =>
    rw [Binary64.toDecimal]
    split
    · exact ok _
    · exact refusal rfl
  | infinite negative => exact refusal rfl
  | nan => exact refusal rfl

theorem ofFloat (x : Float) (operation : String) : Ordinary (Decimal.ofFloat x operation) := toDecimal _ _

section Formulas

variable {m a b c d0 p0 theta kappa x : Decimal} {n : UInt64}

theorem constants : Ordinary (Curve.constants d0 p0 theta kappa) := by
  rw [Curve.constants]
  split
  · exact ok _
  · exact refusal rfl

theorem sigmoidRoot : Ordinary (Curve.sigmoidRoot x b c) := by
  refine (checked _ _).bind fun _ => (checked _ _).bind fun _ => (checked _ _).bind fun _ => ?_
  exact (root _).bind fun _ => ok _

theorem priceAt (x : Decimal) (curve : Curve) : Ordinary (curve.priceAt x) := by
  cases curve with
  | power => exact (checked _ _).bind fun _ => (checked _ _).bind fun _ => checked _ _
  | sigmoid =>
    refine sigmoidRoot.bind fun _ => (checked _ _).bind fun _ => ?_
    exact (checked _ _).bind fun _ => checked _ _
  | augmented => exact constants.bind fun _ => ofFloat _ _
  | swapper => exact refusal rfl

theorem powerIntegral : Ordinary (Curve.powerIntegral m n c x) := by
  refine (refuseIf rfl).bind fun _ => (checked _ _).bind fun _ => (checked _ _).bind fun _ => ?_
  exact (checked _ _).bind fun _ => (checked _ _).bind fun _ => checked _ _

theorem sigmoidIntegral : Ordinary (Curve.sigmoidIntegral a b c x) := by
  refine sigmoidRoot.bind fun _ => (checked _ _).bind fun _ => (checked _ _).bind fun _ => ?_
  refine (checked _ _).bind fun _ => (checked _ _).bind fun _ => (root _).bind fun _ => ?_
  exact (checked _ _).bind fun _ => checked _ _

theorem integral (x : Decimal) {curve : Curve} (h : curve ≠ .swapper) : Ordinary (curve.integral x).outcome := by
  cases curve with
  | power => exact powerIntegral
  | sigmoid => exact sigmoidIntegral
  | augmented =>
    rw [Curve.integral, Logged.outcome_bind]
    exact Ordinary.bind constants fun _ => ofFloat _ _
  | swapper => exact absurd rfl h

end Formulas

end Ordinary

def OverflowOnly {α : Type} (outcome : Except Error α) : Prop :=
  ∀ e, outcome = .error e → ∃ cause, e = .arithmeticOverflow cause

namespace OverflowOnly

variable {α β : Type} {x : Except Error α} {f : α → Except Error β}

theorem ok (a : α) : OverflowOnly (.ok a : Except Error α) := nofun

theorem overflow (cause : Overflow) : OverflowOnly (.error (.arithmeticOverflow cause) : Except Error α) := by
  rintro _ ⟨⟩
  exact ⟨cause, rfl⟩

theorem bind (h : OverflowOnly x) (hNext : ∀ a, x = .ok a → OverflowOnly (f a)) : OverflowOnly (x >>= f) :=
  forall_error_bind h hNext

theorem checked (operation : Operation) (r : Option Decimal) : OverflowOnly (Decimal.checked operation r) := by
  cases r with
  | none => exact overflow _
  | some x => exact ok x

theorem toWord (x : Decimal) (name : String) : OverflowOnly (x.toWord name) := by
  rw [Decimal.toWord]
  split
  · exact ok _
  · exact overflow _

end OverflowOnly

end BondingCurve
