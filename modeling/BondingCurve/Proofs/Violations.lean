import BondingCurve.Bond.Validation
import BondingCurve.Proofs.Ordinary
import BondingCurve.Proofs.Sigmoid

/-!
# When a quote is a violation

Checks, arithmetic and lookups only ever refuse. A quote of a power or sigmoid bond is a violation when
the computed price or integral comes out a whole unit of an amount below zero. A power curve never gets
there, a sigmoid only where its constants let the roundings grow that large.
-/

namespace BondingCurve

open Logged

def Recoverable {α : Type} (outcome : Except Error α) : Prop := ∀ v, outcome ≠ .error (.violation v)

namespace Recoverable

variable {α β : Type}

theorem ok (a : α) : Recoverable (.ok a : Except Error α) := nofun

theorem of_ordinary {x : Except Error α} (h : Ordinary x) : Recoverable x := by
  intro v hViolation
  cases h _ hViolation

theorem bind {x : Except Error α} {f : α → Except Error β} (h : Recoverable x)
    (hNext : ∀ a, Recoverable (f a)) : Recoverable (x >>= f) := by
  cases x with
  | ok a => exact hNext a
  | error e =>
    intro v hViolation
    cases hViolation
    exact h v rfl

theorem logged_bind {x : Logged α} {f : α → Logged β} (h : Recoverable x.outcome)
    (hNext : ∀ a, Recoverable (f a).outcome) : Recoverable (x >>= f).outcome := by
  rw [outcome_bind]
  exact h.bind hNext

theorem mapM {f : α → Except Error β} (h : ∀ a, Recoverable (f a)) (as : List α) :
    Recoverable (as.mapM f) := by
  induction as with
  | nil => exact ok []
  | cons a as ih =>
    rw [List.mapM_cons]
    exact (h a).bind fun _ => ih.bind fun _ => ok _

theorem refuseIf {p : Prop} [Decidable p] {e : Error} (h : e.isOrdinary = true) :
    Recoverable (refuseIf p e) := of_ordinary (.refuseIf h)

theorem checked (operation : Operation) (r : Option Decimal) : Recoverable (Decimal.checked operation r) :=
  of_ordinary (.checked operation r)

theorem sign (x : Decimal) (name : String) : Recoverable (x.ensureNonNegative name) :=
  of_ordinary (.sign x name)

theorem signs (coins : Coins) (name : String) : Recoverable (coins.ensureNonNegative name) :=
  of_ordinary (.signs coins name)

/-- The one refusal that is not ordinary, over a repeated denomination, is no violation either. -/
theorem ofList (coins : List Coin) : Recoverable (Coins.ofList coins) := by
  unfold Coins.ofList
  split
  · intro v
    exact nofun
  · exact ok _

/-- After a step that cannot be a violation, one can only come from what follows. -/
theorem bind_eq_violation_iff {x : Logged α} {f : α → Logged β} {v : Violation}
    (h : Recoverable x.outcome) : (x >>= f).outcome = .error (.violation v) ↔
      ∃ a, x.outcome = .ok a ∧ (f a).outcome = .error (.violation v) := by
  cases hOutcome : x.outcome with
  | ok a =>
    rw [bind_ok hOutcome]
    exact ⟨fun hNext => ⟨a, rfl, hNext⟩, fun ⟨_, ha, hNext⟩ => by cases ha; exact hNext⟩
  | error e =>
    rw [bind_error hOutcome]
    constructor
    · intro hViolation
      cases hViolation
      exact absurd hOutcome (h v)
    · rintro ⟨_, hOk, _⟩
      cases hOk

theorem lift_bind_eq_violation_iff {x : Except Error α} {f : α → Logged β} {v : Violation}
    (h : Recoverable x) : ((liftM x : Logged α) >>= f).outcome = .error (.violation v) ↔
      ∃ a, x = .ok a ∧ (f a).outcome = .error (.violation v) :=
  bind_eq_violation_iff (x := liftM x) h

theorem bind_eq_violation_iff_first {x : Logged α} {f : α → Logged β} {v : Violation}
    (hNext : ∀ a, Recoverable (f a).outcome) :
    (x >>= f).outcome = .error (.violation v) ↔ x.outcome = .error (.violation v) := by
  cases hOutcome : x.outcome with
  | ok a =>
    rw [bind_ok hOutcome]
    exact ⟨fun hViolation => absurd hViolation (hNext a v), fun hViolation => by cases hViolation⟩
  | error e =>
    rw [bind_error hOutcome, Except.error.injEq, Except.error.injEq]

end Recoverable

theorem violateIf_eq_violation_iff {p : Prop} [Decidable p] {v w : Violation} :
    (violateIf p w).outcome = .error (.violation v) ↔ p ∧ w = v := by
  rw [violateIf]
  split
  · rename_i hp
    simp [violate, hp]
  · rename_i hp
    simp [hp]

namespace Decimal

/-- Below zero by a unit of the last place of an amount, or more. -/
def BelowZero (x : Decimal) : Prop := x.toRat ≤ -1 / 10 ^ amountPlaces

theorem quantize_lt_zero_iff {x : Decimal} : x.quantize < 0 ↔ x.BelowZero := by
  rw [lt_zero_iff_toRat]
  exact quantize_neg_iff

end Decimal

namespace Curve

open Decimal

variable {m c x price reserve : Decimal} {n : UInt64}

theorem power_priceAt_nonneg (hm : 0 ≤ m.toRat) (hc : 0 ≤ c.toRat) (hx : 0 ≤ x.toRat)
    (h : (power m n c).priceAt x = .ok price) : 0 ≤ price.toRat := by
  obtain ⟨p, hPower, h⟩ := bind_eq_ok_iff.mp h
  obtain ⟨scaled, hScaled, hPrice⟩ := bind_eq_ok_iff.mp h
  have hPowerNonneg := pow?_nonneg hx (checked_eq_ok_iff.mp hPower)
  have hScaledRounds := (computes_mul? p m).rounds (checked_eq_ok_iff.mp hScaled)
  exact Bond.add_nonneg_of_add (hScaledRounds.nonneg (mul_nonneg hPowerNonneg hm)) hc hPrice

theorem powerIntegral_nonneg (hm : 0 ≤ m.toRat) (hc : 0 ≤ c.toRat) (hx : 0 ≤ x.toRat)
    (h : powerIntegral m n c x = .ok reserve) : 0 ≤ reserve.toRat := by
  obtain ⟨_, hRefused, h⟩ := bind_eq_ok_iff.mp h
  obtain ⟨p, hPower, h⟩ := bind_eq_ok_iff.mp h
  obtain ⟨scaled, hScaled, h⟩ := bind_eq_ok_iff.mp h
  obtain ⟨area, hArea, h⟩ := bind_eq_ok_iff.mp h
  obtain ⟨linear, hLinear, hReserve⟩ := bind_eq_ok_iff.mp h
  have hDivisor : 0 < (ofWord (n + 1)).toRat := by
    rw [toRat_ofWord, toNat_succ (refuseIf_eq_ok_iff.mp hRefused)]
    positivity
  have hPowerNonneg := pow?_nonneg hx (checked_eq_ok_iff.mp hPower)
  have hScaledRounds := (computes_mul? p m).rounds (checked_eq_ok_iff.mp hScaled)
  have hAreaRounds := (computes_div? hDivisor.ne').rounds (checked_eq_ok_iff.mp hArea)
  have hLinearRounds := (computes_mul? x c).rounds (checked_eq_ok_iff.mp hLinear)
  have hScaledNonneg := hScaledRounds.nonneg (mul_nonneg hPowerNonneg hm)
  exact Bond.add_nonneg_of_add (hAreaRounds.nonneg (div_nonneg hScaledNonneg hDivisor.le))
    (hLinearRounds.nonneg (mul_nonneg hx hc)) hReserve

/-- A sigmoid so high that before its midpoint roundings can reach the digits of an amount. -/
def SteepBefore (supply : Decimal) : Curve → Prop
  | sigmoid a b _ => supply.toRat < b.toRat ∧ 10 ^ 8 < a.toRat
  | _ => False

/-- A sigmoid so high, so far out or so sharp that roundings can reach the digits of an amount. -/
def Steep : Curve → Prop
  | sigmoid a b c => 10 ^ 8 < a.toRat * (b.toRat + c.toRat + 1) * (1 + 1 / c.toRat)
  | _ => False

end Curve

namespace Bond

open Decimal

variable {bond : Bond} {curve : Curve} {supply mint : Decimal} {balances : Coins} {v : Violation}

theorem recoverable_curve (bond : Bond) : Recoverable bond.curve := .of_ordinary (.ofParams _ _)

theorem recoverable_reserveCoins (bond : Bond) (amount : Decimal) : Recoverable (bond.reserveCoins amount) :=
  .ofList _

theorem recoverable_quoteMint (bond : Bond) (amount supply price : Decimal) :
    Recoverable (bond.quoteMint amount supply price).outcome :=
  Recoverable.logged_bind (.ok ()) fun _ => bond.recoverable_reserveCoins price

theorem recoverable_depositFor (bond : Bond) (target reserve : Decimal) :
    Recoverable (bond.depositFor target reserve).outcome := by
  refine Recoverable.logged_bind (.checked _ _) fun difference => ?_
  dsimp only
  split
  · exact .ok _
  · exact .ok _

theorem pricesAtSupply_eq_violation_iff :
    (bond.pricesAtSupply supply).outcome = .error (.violation v) ↔
      v = .negativePrice bond.token ∧ 0 ≤ supply.toRat ∧ ∃ curve price, bond.curve = .ok curve ∧
        curve.priceAt supply = .ok price ∧ price.BelowZero := by
  have hSign := Recoverable.sign supply "supply"
  have hSpot := fun curve => Recoverable.of_ordinary (.priceAt supply curve)
  rw [pricesAtSupply, hSign.lift_bind_eq_violation_iff]
  constructor
  · rintro ⟨_, hSupply, hRest⟩
    obtain ⟨curve, hFound, hRest⟩ := bond.recoverable_curve.lift_bind_eq_violation_iff.mp hRest
    obtain ⟨price, hPrice, hRest⟩ := (hSpot curve).lift_bind_eq_violation_iff.mp hRest
    have hGuard := (Recoverable.bind_eq_violation_iff_first fun _ =>
      .logged_bind (.ok ()) fun _ => bond.recoverable_reserveCoins _).mp hRest
    obtain ⟨hNegative, hViolation⟩ := violateIf_eq_violation_iff.mp hGuard
    exact ⟨hViolation.symm, ensureNonNegative_eq_ok_iff.mp hSupply, curve, price, hFound, hPrice,
      quantize_lt_zero_iff.mp hNegative⟩
  · rintro ⟨rfl, hSupply, curve, price, hFound, hPrice, hBelow⟩
    refine ⟨(), ensureNonNegative_eq_ok_iff.mpr hSupply, ?_⟩
    refine bond.recoverable_curve.lift_bind_eq_violation_iff.mpr ⟨curve, hFound, ?_⟩
    refine (hSpot curve).lift_bind_eq_violation_iff.mpr ⟨price, hPrice, ?_⟩
    refine (Recoverable.bind_eq_violation_iff_first fun _ =>
      .logged_bind (.ok ()) fun _ => bond.recoverable_reserveCoins _).mpr ?_
    exact violateIf_eq_violation_iff.mpr ⟨quantize_lt_zero_iff.mpr hBelow, rfl⟩

theorem curveIntegral_eq_violation_iff_integralOf :
    (bond.curveIntegral supply).outcome = .error (.violation v) ↔
      0 ≤ supply.toRat ∧ ∃ curve, bond.curve = .ok curve ∧
        (bond.integralOf curve supply).outcome = .error (.violation v) := by
  rw [curveIntegral, (Recoverable.sign supply "supply").lift_bind_eq_violation_iff,
    bond.recoverable_curve.lift_bind_eq_violation_iff]
  exact ⟨fun ⟨_, hSign, h⟩ => ⟨ensureNonNegative_eq_ok_iff.mp hSign, h⟩,
    fun ⟨hSign, h⟩ => ⟨(), ensureNonNegative_eq_ok_iff.mpr hSign, h⟩⟩

theorem mintQuote_eq_violation_iff {reserve : Decimal} :
    (do
      let total ← liftM (supply.add mint)
      let target ← bond.integralOf curve total
      let price ← bond.depositFor target reserve
      bond.quoteMint mint supply price : Logged Coins).outcome = .error (.violation v) ↔
      ∃ total, supply.add mint = .ok total ∧
        (bond.integralOf curve total).outcome = .error (.violation v) := by
  have hSum : Recoverable (supply.add mint) := .checked _ _
  rw [hSum.lift_bind_eq_violation_iff]
  refine exists_congr fun total => and_congr_right fun _ => ?_
  exact Recoverable.bind_eq_violation_iff_first fun target =>
    .logged_bind (bond.recoverable_depositFor _ _) fun price => bond.recoverable_quoteMint _ _ _

namespace ClosedForm

theorem recoverable_integral (h : ClosedForm bond) (hCurve : bond.curve = .ok curve) :
    Recoverable (curve.integral supply).outcome := by
  apply Recoverable.of_ordinary
  apply Ordinary.integral
  rcases h.curve_cases hCurve with ⟨m, n, c, rfl, _⟩ | ⟨a, b, c, rfl, _⟩ <;> exact nofun

theorem steepBefore_of_belowZero (h : ClosedForm bond) (hCurve : bond.curve = .ok curve)
    (hSupply : 0 ≤ supply.toRat) {price : Decimal} (hPrice : curve.priceAt supply = .ok price)
    (hBelow : price.BelowZero) : curve.SteepBefore supply := by
  rw [BelowZero, amountPlaces] at hBelow
  rcases h.curve_cases hCurve with ⟨m, n, c, rfl, hm, hc⟩ | ⟨a, b, c, rfl, ha, _, hc⟩
  · have hNonneg := Curve.power_priceAt_nonneg hm hc hSupply hPrice
    linarith
  · obtain ⟨hAbove, hLow⟩ := Curve.sigmoid_priceAt_ge ha hc hPrice
    refine ⟨?_, by linarith⟩
    by_contra hPast
    have hNonneg := hAbove (not_lt.mp hPast)
    linarith

theorem steep_of_belowZero (h : ClosedForm bond) (hCurve : bond.curve = .ok curve)
    (hSupply : 0 ≤ supply.toRat) {reserve : Decimal} (hReserve : (curve.integral supply).outcome = .ok reserve)
    (hBelow : reserve.BelowZero) : curve.Steep := by
  rw [BelowZero, amountPlaces] at hBelow
  rcases h.curve_cases hCurve with ⟨m, n, c, rfl, hm, hc⟩ | ⟨a, b, c, rfl, ha, hb, hc⟩
  · have hNonneg := Curve.powerIntegral_nonneg hm hc hSupply hReserve
    linarith
  · have hLow := Curve.sigmoidIntegral_ge ha hb hc hSupply hReserve
    rw [Curve.Steep]
    linarith

theorem integralOf_eq_violation_iff (h : ClosedForm bond) (hCurve : bond.curve = .ok curve) :
    (bond.integralOf curve supply).outcome = .error (.violation v) ↔
      v = .negativeIntegral bond.token ∧ ∃ reserve, (curve.integral supply).outcome = .ok reserve ∧
        reserve.BelowZero := by
  rw [integralOf, (h.recoverable_integral hCurve).bind_eq_violation_iff]
  constructor
  · rintro ⟨reserve, hReserve, hRest⟩
    have hGuard := (Recoverable.bind_eq_violation_iff_first fun _ => .ok _).mp hRest
    obtain ⟨hNegative, hViolation⟩ := violateIf_eq_violation_iff.mp hGuard
    exact ⟨hViolation.symm, reserve, hReserve, quantize_lt_zero_iff.mp hNegative⟩
  · rintro ⟨rfl, reserve, hReserve, hBelow⟩
    refine ⟨reserve, hReserve, (Recoverable.bind_eq_violation_iff_first fun _ => .ok _).mpr ?_⟩
    exact violateIf_eq_violation_iff.mpr ⟨quantize_lt_zero_iff.mpr hBelow, rfl⟩

theorem curveIntegral_eq_violation_iff (h : ClosedForm bond) :
    (bond.curveIntegral supply).outcome = .error (.violation v) ↔
      v = .negativeIntegral bond.token ∧ 0 ≤ supply.toRat ∧ ∃ curve reserve, bond.curve = .ok curve ∧
        (curve.integral supply).outcome = .ok reserve ∧ reserve.BelowZero := by
  rw [curveIntegral_eq_violation_iff_integralOf]
  constructor
  · rintro ⟨hSupply, curve, hFound, hIntegral⟩
    obtain ⟨hViolation, reserve, hReserve⟩ := (h.integralOf_eq_violation_iff hFound).mp hIntegral
    exact ⟨hViolation, hSupply, curve, reserve, hFound, hReserve⟩
  · rintro ⟨hViolation, hSupply, curve, reserve, hFound, hReserve⟩
    exact ⟨hSupply, curve, hFound, (h.integralOf_eq_violation_iff hFound).mpr ⟨hViolation, reserve, hReserve⟩⟩

/-- A mint is a violation exactly where the integral at the supply it leads to is one. -/
theorem pricesToMint_eq_violation_iff (h : ClosedForm bond) (hSupply : 0 ≤ bond.supply.amount.toRat) :
    (bond.pricesToMint mint balances).outcome = .error (.violation v) ↔
      0 ≤ mint.toRat ∧ ¬balances.AnyNegative ∧ ∃ total, bond.supply.amount.add mint = .ok total ∧
        (bond.curveIntegral total).outcome = .error (.violation v) := by
  have hFunds : bond.currentSupply.outcome = .ok bond.supply.amount :=
    currentSupply_eq_ok_iff.mpr ⟨hSupply, rfl⟩
  have hRead : Recoverable bond.currentSupply.outcome := hFunds ▸ .ok _
  have hMintSign := Recoverable.sign mint "mint amount"
  have hSigns := Recoverable.signs balances "reserve balances"
  rw [pricesToMint, hMintSign.lift_bind_eq_violation_iff]
  constructor
  · rintro ⟨_, hMint, hRest⟩
    obtain ⟨_, hBalances, hRest⟩ := hSigns.lift_bind_eq_violation_iff.mp hRest
    obtain ⟨_, hRead', hRest⟩ := hRead.bind_eq_violation_iff.mp hRest
    cases hFunds.symm.trans hRead'
    obtain ⟨curve, hFound, hRest⟩ := bond.recoverable_curve.lift_bind_eq_violation_iff.mp hRest
    have hQuote : ∃ total, bond.supply.amount.add mint = .ok total ∧
        (bond.integralOf curve total).outcome = .error (.violation v) := by
      rcases h.curve_cases hFound with ⟨m, n, c, rfl, _⟩ | ⟨a, b, c, rfl, _⟩ <;>
        exact mintQuote_eq_violation_iff.mp hRest
    obtain ⟨total, hTotal, hIntegral⟩ := hQuote
    have hNonneg := ensureNonNegative_eq_ok_iff.mp hMint
    exact ⟨hNonneg, refuseIf_eq_ok_iff.mp hBalances, total, hTotal, curveIntegral_eq_violation_iff_integralOf.mpr
      ⟨add_nonneg_of_add hSupply hNonneg hTotal, curve, hFound, hIntegral⟩⟩
  · rintro ⟨hMint, hBalances, total, hTotal, hIntegral⟩
    obtain ⟨_, curve, hFound, hIntegral⟩ := curveIntegral_eq_violation_iff_integralOf.mp hIntegral
    refine ⟨(), ensureNonNegative_eq_ok_iff.mpr hMint, ?_⟩
    refine hSigns.lift_bind_eq_violation_iff.mpr ⟨(), refuseIf_eq_ok_iff.mpr hBalances, ?_⟩
    refine hRead.bind_eq_violation_iff.mpr ⟨_, hFunds, ?_⟩
    refine bond.recoverable_curve.lift_bind_eq_violation_iff.mpr ⟨curve, hFound, ?_⟩
    rcases h.curve_cases hFound with ⟨m, n, c, rfl, _⟩ | ⟨a, b, c, rfl, _⟩ <;>
      exact mintQuote_eq_violation_iff.mpr ⟨total, hTotal, hIntegral⟩

end ClosedForm

/-- Spot prices, integrals and mint prices of a validated power or sigmoid bond are a violation exactly
where the computed value is below zero, and that takes a steep sigmoid. -/
theorem violates_iff_belowZero {policy : Policy} (hFamily : bond.family = .power ∨ bond.family = .sigmoid)
    (hValid : (bond.validate policy).outcome = .ok ()) (supply mint : Decimal) (balances : Coins) :
    ((∀ curve, bond.curve = .ok curve → ¬curve.SteepBefore supply) →
      Recoverable (bond.pricesAtSupply supply).outcome) ∧
    ((∀ curve, bond.curve = .ok curve → ¬curve.Steep) →
      Recoverable (bond.curveIntegral supply).outcome ∧
      Recoverable (bond.pricesToMint mint balances).outcome) ∧
    ∀ v,
      ((bond.pricesAtSupply supply).outcome = .error (.violation v) ↔
        v = .negativePrice bond.token ∧ 0 ≤ supply.toRat ∧ ∃ curve price, bond.curve = .ok curve ∧
          curve.priceAt supply = .ok price ∧ price.BelowZero) ∧
      ((bond.curveIntegral supply).outcome = .error (.violation v) ↔
        v = .negativeIntegral bond.token ∧ 0 ≤ supply.toRat ∧ ∃ curve reserve, bond.curve = .ok curve ∧
          (curve.integral supply).outcome = .ok reserve ∧ reserve.BelowZero) ∧
      ((bond.pricesToMint mint balances).outcome = .error (.violation v) ↔
        0 ≤ mint.toRat ∧ ¬balances.AnyNegative ∧ ∃ total, bond.supply.amount.add mint = .ok total ∧
          (bond.curveIntegral total).outcome = .error (.violation v)) := by
  have hClosed := closedForm_of_validate hFamily hValid
  have hSupply := (validate_eq_ok_iff.mp hValid).supply
  have hIntegral : (∀ curve, bond.curve = .ok curve → ¬curve.Steep) → ∀ total,
      Recoverable (bond.curveIntegral total).outcome := by
    intro hGentle total v hViolation
    obtain ⟨_, hTotal, curve, reserve, hFound, hReserve, hBelow⟩ :=
      hClosed.curveIntegral_eq_violation_iff.mp hViolation
    exact hGentle curve hFound (hClosed.steep_of_belowZero hFound hTotal hReserve hBelow)
  refine ⟨?_, fun hGentle => ⟨hIntegral hGentle supply, ?_⟩, fun v =>
    ⟨pricesAtSupply_eq_violation_iff, hClosed.curveIntegral_eq_violation_iff,
      hClosed.pricesToMint_eq_violation_iff hSupply⟩⟩
  · intro hGentle v hViolation
    obtain ⟨_, hNonneg, curve, price, hFound, hPrice, hBelow⟩ :=
      pricesAtSupply_eq_violation_iff.mp hViolation
    exact hGentle curve hFound (hClosed.steepBefore_of_belowZero hFound hNonneg hPrice hBelow)
  · intro v hViolation
    obtain ⟨_, _, total, _, hTotal⟩ :=
      (hClosed.pricesToMint_eq_violation_iff hSupply).mp hViolation
    exact hIntegral hGentle total v hTotal

def sigmoidBond (a b c : Decimal) : Bond :=
  .create "unit" "Unit" "One reserve token" .zero .sigmoid (.ofPairs [("a", a), ("b", b), ("c", c)])
    ["res"] (.units (10 ^ 27))

def steepSigmoid : Bond := sigmoidBond (.units 10000000000) (.units 40000000000) (.scaled 1 9)

def gentleSigmoid : Bond := sigmoidBond (.units 3) (.units 5) 1

/-- Near supply zero every quote of the steep sigmoid is a violation, and none of the gentle one. -/
theorem violates_iff_belowZero_steepSigmoid :
    (steepSigmoid.validate .strict).outcome = .ok () ∧
    (gentleSigmoid.validate .strict).outcome = .ok () ∧
    (steepSigmoid.pricesAtSupply (.scaled 7 18)).outcome =
      .error (.violation (.negativePrice "unit")) ∧
    (steepSigmoid.curveIntegral (.scaled 7 18)).outcome =
      .error (.violation (.negativeIntegral "unit")) ∧
    (steepSigmoid.pricesToMint (.scaled 7 18) .empty).outcome =
      .error (.violation (.negativeIntegral "unit")) ∧
    (∃ curve price, steepSigmoid.curve = .ok curve ∧ curve.priceAt (.scaled 7 18) = .ok price ∧
      price.BelowZero) ∧
    Recoverable (gentleSigmoid.pricesAtSupply (.scaled 7 18)).outcome ∧
    Recoverable (gentleSigmoid.pricesToMint (.scaled 7 18) .empty).outcome := by
  have hSteep : (steepSigmoid.validate .strict).outcome = .ok () := by decide +kernel
  have hGentle : (gentleSigmoid.validate .strict).outcome = .ok () := by decide +kernel
  have hPrice : (steepSigmoid.pricesAtSupply (.scaled 7 18)).outcome =
      .error (.violation (.negativePrice "unit")) := by decide +kernel
  have hCurve : gentleSigmoid.curve = .ok (.sigmoid (.units 3) (.units 5) 1) := by decide +kernel
  have hThree : (units 3).toRat = 3 := by decide +kernel
  have hFive : (units 5).toRat = 5 := by decide +kernel
  obtain ⟨_, _, hExact⟩ := violates_iff_belowZero (.inr rfl) hSteep (.scaled 7 18) (.scaled 7 18) .empty
  obtain ⟨hPrices, hIntegrals, _⟩ :=
    violates_iff_belowZero (.inr rfl) hGentle (.scaled 7 18) (.scaled 7 18) .empty
  refine ⟨hSteep, hGentle, hPrice, by decide +kernel, by decide +kernel, ?_, ?_, ?_⟩
  · obtain ⟨_, _, hBelow⟩ := (hExact _).1.mp hPrice
    exact hBelow
  · refine hPrices fun curve hFound => ?_
    cases hCurve.symm.trans hFound
    rw [Curve.SteepBefore, hThree]
    norm_num
  · refine (hIntegrals fun curve hFound => ?_).2
    cases hCurve.symm.trans hFound
    rw [Curve.Steep, hThree, hFive, toRat_one]
    norm_num

end Bond

end BondingCurve
