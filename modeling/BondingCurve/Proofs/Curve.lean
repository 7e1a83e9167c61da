import BondingCurve.Curve
import BondingCurve.Proofs.Decimal.Power

/-!
# Closed forms

The reserve behind a power curve never falls as the supply rises, rounding included, and where the
larger supply can be backed at all, so can the smaller. Both closed forms start at zero.
-/

namespace BondingCurve

theorem toOption_bind {α β : Type} (x : Except Error α) (f : α → Except Error β) :
    (x >>= f).toOption = x.toOption.bind fun a => (f a).toOption := by
  cases x <;> rfl

theorem toOption_eq_some_iff {α : Type} {x : Except Error α} {a : α} :
    x.toOption = some a ↔ x = .ok a := by
  cases x <;> simp [Except.toOption]

namespace Decimal

theorem toOption_checked (operation : Operation) (r : Option Decimal) :
    (checked operation r).toOption = r := by
  cases r <;> rfl

theorem mul_negate_self {x : Decimal} (hx : x.negative = false) : x.negate.mul x.negate = x.mul x := by
  unfold mul mul? negate Short
  simp [hx]

end Decimal

namespace Curve

open Decimal

variable {m c x y : Decimal} {n : UInt64}

theorem toNat_succ (h : ¬n.toNat + 1 = UInt64.size) : (n + 1).toNat = n.toNat + 1 := by
  have hn := n.toNat_lt
  have hSize : UInt64.size = 2 ^ 64 := rfl
  rw [UInt64.toNat_add]
  change (n.toNat + 1) % 2 ^ 64 = n.toNat + 1
  exact Nat.mod_eq_of_lt (by omega)

/-- Where the power of a supply is below that of another, so is all that the integral makes of it. -/
theorem follows_powerIntegral_of_pow (hm : 0 ≤ m.toRat) (hc : 0 ≤ c.toRat) (hBelow : Below x y)
    (hPower : n.toNat + 1 < 2 ^ 64 → Follows Below (x.pow? (n.toNat + 1)) (y.pow? (n.toNat + 1))) :
    Follows Below (powerIntegral m n c x).toOption (powerIntegral m n c y).toOption := by
  unfold powerIntegral
  by_cases hLast : n.toNat + 1 = UInt64.size
  · intro J hJ
    rw [toOption_eq_some_iff] at hJ
    obtain ⟨_, hRefused, _⟩ := bind_eq_ok_iff.mp hJ
    exact absurd hLast (refuseIf_eq_ok_iff.mp hRefused)
  have hExponent := toNat_succ hLast
  have hWord := (n + 1).toNat_lt
  have hDivisor : 0 < (ofWord (n + 1)).toRat := by
    rw [toRat_ofWord, hExponent]
    positivity
  simp only [toOption_bind, Decimal.power, mul, quo, add, toOption_checked]
  have hGuard : (refuseIf (n.toNat + 1 = UInt64.size) (.arithmeticOverflow .powerExponent)).toOption
      = some () := toOption_eq_some_iff.mpr (refuseIf_eq_ok_iff.mpr hLast)
  rw [hGuard, Option.bind_some, Option.bind_some]
  rw [← hExponent] at hPower
  refine (hPower hWord).bind fun p q hPower => ?_
  refine (follows_mul? hPower ⟨hm, le_rfl⟩).bind fun p q hScaled => ?_
  refine (follows_div? hScaled hDivisor).bind fun p q hArea => ?_
  refine (follows_mul? hBelow ⟨hc, le_rfl⟩).bind fun p' q' hLinear => ?_
  exact follows_add? hArea hLinear

/-- A supply under another is backed wherever the other is, by no larger reserve. -/
theorem follows_powerIntegral (hm : 0 ≤ m.toRat) (hc : 0 ≤ c.toRat) (h : Under (n.toNat + 1) x y) :
    Follows Below (powerIntegral m n c x).toOption (powerIntegral m n c y).toOption :=
  follows_powerIntegral_of_pow hm hc h.1 fun hWord => follows_pow? hWord h

/-- The spot price of a supply follows that of another wherever the power does. -/
theorem follows_power_priceAt (hm : 0 ≤ m.toRat) (hc : 0 ≤ c.toRat)
    (hPower : Follows Below (x.pow? n.toNat) (y.pow? n.toNat)) :
    Follows Below ((power m n c).priceAt x).toOption ((power m n c).priceAt y).toOption := by
  simp only [priceAt, toOption_bind, Decimal.power, mul, add, toOption_checked]
  refine hPower.bind fun p q hPower => ?_
  refine (follows_mul? hPower ⟨hm, le_rfl⟩).bind fun p q hScaled => ?_
  exact follows_add? hScaled ⟨hc, le_rfl⟩

theorem lt_two_of_powerIntegral {I : Decimal} (hn : 1024 ≤ n.toNat + 1)
    (h : powerIntegral m n c x = .ok I) : x.toRat < 2 := by
  unfold powerIntegral at h
  obtain ⟨_, hRefused, h⟩ := bind_eq_ok_iff.mp h
  obtain ⟨p, hPower, _⟩ := bind_eq_ok_iff.mp h
  rw [← toNat_succ (refuseIf_eq_ok_iff.mp hRefused)] at hn
  exact lt_two_of_pow? hn (checked_eq_ok_iff.mp hPower)

theorem mul_eq_zero {u v r : Decimal} (hu : u.toRat = 0 ∨ v.toRat = 0) (h : u.mul v = .ok r) :
    r.toRat = 0 := by
  have hRounds := (computes_mul? u v).rounds (checked_eq_ok_iff.mp h)
  have hZero : u.toRat * v.toRat = 0 := by simpa using hu
  rw [hZero] at hRounds
  exact hRounds.eq_of_exact ⟨0, toRat_zero⟩

theorem powerIntegral_zero {I : Decimal} (hx : x.toRat = 0) (h : powerIntegral m n c x = .ok I) :
    I.toRat = 0 := by
  unfold powerIntegral at h
  obtain ⟨_, hRefused, h⟩ := bind_eq_ok_iff.mp h
  have hExponent := toNat_succ (refuseIf_eq_ok_iff.mp hRefused)
  obtain ⟨p, hPower, h⟩ := bind_eq_ok_iff.mp h
  obtain ⟨scaled, hScaled, h⟩ := bind_eq_ok_iff.mp h
  obtain ⟨area, hArea, h⟩ := bind_eq_ok_iff.mp h
  obtain ⟨linear, hLinear, h⟩ := bind_eq_ok_iff.mp h
  have hNone : p = 0 := by
    have := checked_eq_ok_iff.mp hPower
    rw [pow?_of_toRat_eq_zero (by omega) hx] at this
    exact (Option.some_inj.mp this).symm
  have hScaledZero := mul_eq_zero (.inl (by rw [hNone, toRat_zero])) hScaled
  have hDivisor : (ofWord (n + 1)).toRat ≠ 0 := by
    rw [toRat_ofWord, hExponent]
    positivity
  have hAreaRounds := (computes_div? hDivisor).rounds (checked_eq_ok_iff.mp hArea)
  rw [hScaledZero, zero_div] at hAreaRounds
  have hAreaZero := hAreaRounds.eq_of_exact ⟨0, toRat_zero⟩
  have hLinearZero := mul_eq_zero (.inl hx) hLinear
  have hSum := (computes_add? area linear).rounds (checked_eq_ok_iff.mp h)
  rw [hAreaZero, hLinearZero, add_zero] at hSum
  exact hSum.eq_of_exact ⟨0, toRat_zero⟩

theorem radicand_pos {y square radicand : Decimal} (hc : 0 < c.toRat) (hSquare : y.mul y = .ok square)
    (hRadicand : square.add c = .ok radicand) : 0 < radicand.toRat := by
  have hNonneg := ((computes_mul? y y).rounds (checked_eq_ok_iff.mp hSquare)).nonneg (mul_self_nonneg _)
  have hSum := (computes_add? square c).rounds (checked_eq_ok_iff.mp hRadicand)
  exact hc.trans_le (hSum.le_of_exact c.exact_toRat (by linarith))

section Origin

variable {a b I : Decimal} (hb : 0 ≤ b.toRat) (hx : x.toRat = 0)

/-- What the second root of the integral is taken of. -/
def originRadicand (b c : Decimal) : Except Error Decimal := do (← b.mul b).add c

def originRoot (b c : Decimal) : Except Error Decimal := do (← originRadicand b c).root

theorem originRadicand_pos {radicand : Decimal} (hc : 0 < c.toRat) (h : originRadicand b c = .ok radicand) :
    0 < radicand.toRat := by
  obtain ⟨square, hSquare, hSum⟩ := bind_eq_ok_iff.mp h
  exact radicand_pos hc hSquare hSum

include hb hx

/-- From zero the shift is exact, and the square loses its sign. -/
theorem sigmoidRoot_of_zero : ∃ shifted, sigmoidRoot x b c = do { return (shifted, ← originRoot b c) } := by
  have hShift : ∃ shifted, x.sub b = .ok shifted ∧ shifted.mul shifted = b.mul b := by
    rw [sub, sub?, if_pos (toRat_eq_zero_iff.mp hx)]
    refine ⟨_, rfl, ?_⟩
    split
    · rfl
    · rename_i hNonzero
      have hPos : 0 < b.toRat := lt_of_le_of_ne hb (Ne.symm (mt toRat_eq_zero_iff.mp hNonzero))
      exact mul_negate_self (negative_eq_false hPos)
  obtain ⟨shifted, hShifted, hSquare⟩ := hShift
  refine ⟨shifted, ?_⟩
  simp only [sigmoidRoot, originRoot, originRadicand, hShifted, ← hSquare, bind_assoc]
  rfl

/-- At supply zero both roots of a sigmoid are the same decimal. -/
theorem sigmoidIntegral_of_zero :
    sigmoidIntegral a b c x = do {
      let root ← originRoot b c
      let upper ← a.mul (← root.add x)
      upper.sub (← a.mul root) } := by
  obtain ⟨shifted, hRoot⟩ := sigmoidRoot_of_zero (c := c) hb hx
  have hOrigin : sigmoidIntegral a b c x = do {
      let rooted ← sigmoidRoot x b c
      let upper ← a.mul (← rooted.2.add x)
      let origin ← originRoot b c
      upper.sub (← a.mul origin) } := by
    simp only [sigmoidIntegral, originRoot, originRadicand, bind_assoc]
  rw [hOrigin, hRoot]
  cases originRoot b c with
  | error e => rfl
  | ok root => rfl

theorem sigmoidIntegral_zero (h : sigmoidIntegral a b c x = .ok I) : I.toRat = 0 := by
  rw [sigmoidIntegral_of_zero hb hx] at h
  obtain ⟨root, _, h⟩ := bind_eq_ok_iff.mp h
  obtain ⟨sum, hSum, h⟩ := bind_eq_ok_iff.mp h
  obtain ⟨upper, hUpper, h⟩ := bind_eq_ok_iff.mp h
  obtain ⟨lower, hLower, hResult⟩ := bind_eq_ok_iff.mp h
  have hValues : upper.toRat = lower.toRat := by
    have hAdd := checked_eq_ok_iff.mp hSum
    unfold add? at hAdd
    split at hAdd
    · rename_i hZero
      cases hAdd
      rw [mul_eq_zero (.inr hx) hUpper, mul_eq_zero (.inr (toRat_eq_zero_iff.mpr hZero)) hLower]
    · rw [if_pos (toRat_eq_zero_iff.mp hx)] at hAdd
      cases hAdd
      cases hUpper.symm.trans hLower
      rfl
  have hDifference := (computes_sub? upper lower).rounds (checked_eq_ok_iff.mp hResult)
  rw [hValues, sub_self] at hDifference
  exact hDifference.eq_of_exact ⟨0, toRat_zero⟩

end Origin

end Curve

end BondingCurve
