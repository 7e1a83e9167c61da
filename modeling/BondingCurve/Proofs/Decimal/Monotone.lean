import BondingCurve.Proofs.Decimal.Division
import BondingCurve.Proofs.Decimal.Grid

/-!
# Smaller operands succeed with smaller results

A computation follows another when it succeeds wherever the other does, with related results. The
rounded operations follow each other along the order of nonnegative values, and so does every
expression made of them; for square and multiply the relation may change from level to level.
-/

namespace BondingCurve

/-- Whenever the second computation succeeds so does the first, and the results are related. -/
def Follows {α β : Type} (R : α → β → Prop) (o : Option α) (o' : Option β) : Prop :=
  ∀ b, o' = some b → ∃ a, o = some a ∧ R a b

namespace Follows

variable {α β γ δ : Type} {R S : α → β → Prop} {T : γ → δ → Prop} {o : Option α} {o' : Option β}

theorem some {a : α} {b : β} (h : R a b) : Follows R (some a) (some b) := by
  rintro _ ⟨⟩
  exact ⟨a, rfl, h⟩

theorem bind {f : α → Option γ} {f' : β → Option δ} (h : Follows R o o')
    (hNext : ∀ a b, R a b → Follows T (f a) (f' b)) : Follows T (o.bind f) (o'.bind f') := by
  intro d hd
  obtain ⟨b, hb, hd⟩ := Option.bind_eq_some_iff.mp hd
  obtain ⟨a, ha, hab⟩ := h b hb
  obtain ⟨c, hc, hcd⟩ := hNext a b hab d hd
  exact ⟨c, Option.bind_eq_some_iff.mpr ⟨a, ha, hc⟩, hcd⟩

theorem map {f : α → γ} {f' : β → δ} (h : Follows R o o') (hNext : ∀ a b, R a b → T (f a) (f' b)) :
    Follows T (o.map f) (o'.map f') := by
  rw [Option.map_eq_bind, Option.map_eq_bind]
  exact h.bind fun a b hab => Follows.some (hNext a b hab)

theorem imp (h : Follows R o o') (hImp : ∀ a b, R a b → S a b) : Follows S o o' := by
  intro b hb
  obtain ⟨a, ha, hab⟩ := h b hb
  exact ⟨a, ha, hImp a b hab⟩

end Follows

section Loop

variable {α β : Type} {mul : α → α → Option α} {mul' : β → β → Option β} {A B Z : Nat → α → β → Prop}

/-- `A` relates the accumulators and `B` the bases after as many squarings as the index says; the
last product, with the highest bit of the exponent, ends in `Z`. -/
theorem follows_squareAndMultiply
    (hKeep : ∀ k a a', A k a a' → A (k + 1) a a')
    (hMul : ∀ k a a' b b', A k a a' → B k b b' → Follows (A (k + 1)) (mul a b) (mul' a' b'))
    (hSquare : ∀ k b b', B k b b' → Follows (B (k + 1)) (mul b b) (mul' b' b'))
    (hLast : ∀ k a a' b b', A k a a' → B k b b' → Follows (Z k) (mul a b) (mul' a' b'))
    {n : Nat} (hn : n ≠ 0) {k : Nat} {a b : α} {a' b' : β} (hA : A k a a') (hB : B k b b') :
    Follows (Z (k + n.log2)) (squareAndMultiply mul a b n) (squareAndMultiply mul' a' b' n) := by
  induction n using Nat.strongRecOn generalizing k a b a' b' with
  | ind n ih =>
    unfold squareAndMultiply
    by_cases hOne : n < 2
    · have hn1 : n = 1 := by omega
      subst hn1
      have hLevels : Nat.log2 1 = 0 := by decide
      simpa [hLevels] using hLast k a a' b b' hA hB
    · have hLevels : k + n.log2 = k + 1 + (n / 2).log2 := by
        rw [Nat.log2_def n, if_pos (by omega)]
        omega
      have hAcc : Follows (A (k + 1)) (if n % 2 = 1 then mul a b else Option.some a)
          (if n % 2 = 1 then mul' a' b' else Option.some a') := by
        split
        · exact hMul k a a' b b' hA hB
        · exact .some (hKeep k a a' hA)
      simp only [if_neg hOne, hLevels]
      refine hAcc.bind fun c c' hc => ?_
      exact (hSquare k b b' hB).bind fun d d' hd => ih (n / 2) (by omega) (by omega) hc hd

theorem squareAndMultiply_pow (a b n : Nat) :
    squareAndMultiply (fun x y => Option.some (x * y)) a b n = Option.some (a * b ^ n) := by
  induction n using Nat.strongRecOn generalizing a b with
  | ind n ih =>
    unfold squareAndMultiply
    have hParity := Nat.mod_two_eq_zero_or_one n
    by_cases hOne : n < 2
    · rcases hParity with h | h
      · have hn : n = 0 := by omega
        simp [hn]
      · have hn : n = 1 := by omega
        simp [hn]
    · have hPow : b ^ n = b ^ (n % 2) * (b * b) ^ (n / 2) := by
        rw [← pow_two, ← pow_mul, ← pow_add, Nat.mod_add_div]
      rcases hParity with h | h
      · simp [h, hOne, hPow, ih (n / 2) (by omega)]
      · simp [h, hOne, hPow, ih (n / 2) (by omega), mul_assoc]

end Loop

namespace Decimal

def Below (x y : Decimal) : Prop := 0 ≤ x.toRat ∧ x.toRat ≤ y.toRat

end Decimal

open Decimal in
theorem Computes.follows {v w : ℚ} {o o' : Option Decimal} (h : Computes v o) (h' : Computes w o')
    (hv : 0 ≤ v) (hLe : v ≤ w) : Follows Below o o' := by
  intro y hy
  have hAbs : |v| ≤ |w| := by rwa [abs_of_nonneg hv, abs_of_nonneg (hv.trans hLe)]
  obtain ⟨x, hx⟩ := h.exists_of_abs_le h' hy hAbs
  exact ⟨x, hx, (h.rounds hx).nonneg hv, (h.rounds hx).mono hLe (h'.rounds hy)⟩

namespace Decimal

variable {x x' y y' : Decimal}

theorem follows_add? (hx : Below x x') (hy : Below y y') : Follows Below (x.add? y) (x'.add? y') :=
  (computes_add? x y).follows (computes_add? x' y') (add_nonneg hx.1 hy.1) (add_le_add hx.2 hy.2)

theorem follows_mul? (hx : Below x x') (hy : Below y y') : Follows Below (x.mul? y) (x'.mul? y') :=
  (computes_mul? x y).follows (computes_mul? x' y') (mul_nonneg hx.1 hy.1)
    (mul_le_mul hx.2 hy.2 hy.1 (hx.1.trans hx.2))

theorem follows_div? (hx : Below x x') (hy : 0 < y.toRat) : Follows Below (x.div? y) (x'.div? y) :=
  (computes_div? hy.ne').follows (computes_div? hy.ne') (div_nonneg hx.1 hy.le)
    (div_le_div_of_nonneg_right hx.2 hy.le)

theorem below_quantize (h : Below x y) : Below x.quantize y.quantize :=
  ⟨quantize_nonneg h.1, quantize_mono h.1 h.2⟩

/-- On zero and one the loop is exact. -/
theorem squareAndMultiply_of_bit {x : Decimal} {e : Nat} (hx : x.toRat = e) (he : e ≤ 1) {n : Nat}
    (hn : n ≠ 0) : (squareAndMultiply mul? 1 x n).map toRat = some ((e ^ n : Nat) : ℚ) := by
  let R : Nat → Decimal → Nat → Prop := fun _ z q => z.toRat = q ∧ q ≤ 1
  have hMul : ∀ (k : Nat) (a : Decimal) (a' : Nat) (b : Decimal) (b' : Nat), R k a a' → R k b b' →
      Follows (R (k + 1)) (a.mul? b) (some (a' * b')) := by
    rintro k a a' b b' ⟨ha, ha'⟩ ⟨hb, hb'⟩ _ ⟨⟩
    have hBit : a' * b' ≤ 1 := Nat.mul_le_mul ha' hb'
    have hValue : a.toRat * b.toRat = (a' * b' : Nat) := by rw [ha, hb, Nat.cast_mul]
    have hComputes := computes_mul? a b
    rw [hValue] at hComputes
    obtain ⟨z, hz, hzValue⟩ := hComputes.eq_of_exact
      ⟨ofNat (a' * b') (Nat.lt_of_le_of_lt hBit (by decide)), toRat_ofNat _ _⟩
    exact ⟨z, hz, hzValue, hBit⟩
  have hOne : R 0 1 1 := ⟨by simp, le_rfl⟩
  have hRun := follows_squareAndMultiply (Z := R) (fun _ _ _ h => h) hMul
    (fun k b b' hb => hMul k b b' b b' hb hb) hMul hn (k := 0) hOne (⟨hx, he⟩ : R 0 x e)
  obtain ⟨z, hz, hzValue, _⟩ := hRun _ (squareAndMultiply_pow 1 e n)
  rw [hz, Option.map_some, hzValue, one_mul]

theorem map_toRat_one_mul? (x : Decimal) : ((1 : Decimal).mul? x).map toRat = some x.toRat := by
  have h := computes_mul? 1 x
  rw [toRat_one, one_mul] at h
  obtain ⟨z, hz, hzValue⟩ := h.eq_of_exact x.exact_toRat
  rw [hz, Option.map_some, hzValue]

/-- Below exponent 1024 every case of the power has the value of the plain loop. -/
theorem map_toRat_pow? (x : Decimal) {n : Nat} (hn : n ≠ 0) (hSmall : n < 1024) :
    (x.pow? n).map toRat = (squareAndMultiply mul? 1 x n).map toRat := by
  unfold pow?
  rw [if_neg hn]
  split
  · rename_i hZero
    rw [squareAndMultiply_of_bit (e := 0) (by rw [toRat_eq_zero_iff.mpr hZero, Nat.cast_zero])
      (Nat.zero_le 1) hn, Nat.zero_pow (Nat.pos_of_ne_zero hn)]
    simp
  split
  · rename_i hOne
    have hValue : x.toRat = 1 := by rw [equiv_iff_toRat_eq.mp hOne, toRat_one]
    rw [squareAndMultiply_of_bit (e := 1) (by rw [hValue, Nat.cast_one]) le_rfl hn]
    simp
  split
  · rename_i hFirst
    subst hFirst
    unfold squareAndMultiply
    simp [map_toRat_one_mul?]
  split
  · rename_i hSecond
    subst hSecond
    unfold squareAndMultiply
    cases hSquare : x.mul? x with
    | none => simp
    | some z =>
      unfold squareAndMultiply
      simp [map_toRat_one_mul?]
  rw [Option.map_map]
  congr 1
  funext z
  exact toRat_normalize z

theorem follows_below_congr {o o' p p' : Option Decimal} (ho : o.map toRat = p.map toRat)
    (ho' : o'.map toRat = p'.map toRat) (h : Follows Below p p') : Follows Below o o' := by
  intro y hy
  subst hy
  obtain ⟨y', hy', hyValue⟩ := Option.map_eq_some_iff.mp ho'.symm
  obtain ⟨x', hx', hNonneg, hLe⟩ := h y' hy'
  subst hx'
  obtain ⟨x, hx, hxValue⟩ := Option.map_eq_some_iff.mp ho
  exact ⟨x, hx, hxValue ▸ hNonneg, by rw [hxValue, ← hyValue]; exact hLe⟩

theorem follows_pow?_of_lt {n : Nat} (hSmall : n < 1024) (h : Below x y) :
    Follows Below (x.pow? n) (y.pow? n) := by
  by_cases hn : n = 0
  · subst hn
    exact .some ⟨by simp, le_rfl⟩
  · apply follows_below_congr (map_toRat_pow? x hn hSmall) (map_toRat_pow? y hn hSmall)
    exact follows_squareAndMultiply (A := fun _ => Below) (B := fun _ => Below) (Z := fun _ => Below)
      (fun _ _ _ hA => hA) (fun _ _ _ _ _ hA hB => follows_mul? hA hB)
      (fun _ _ _ hB => follows_mul? hB hB) (fun _ _ _ _ _ hA hB => follows_mul? hA hB) hn (k := 0)
      ⟨by simp, le_rfl⟩ h

end Decimal

end BondingCurve
