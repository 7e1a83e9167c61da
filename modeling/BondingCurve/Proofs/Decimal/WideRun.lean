import BondingCurve.Proofs.Decimal.Monotone
import BondingCurve.Proofs.Decimal.WideProduct

/-!
# Square and multiply on working mantissas

A run crosses no whole number, so whole numbers bound it on either side. Up to one a product is off
by a unit of the fifty-seventh place, from one on by a small share of its value. After six squarings
every product has all the places or nearly all the bits, which fixes how it is narrowed.
-/

namespace BondingCurve

namespace WideDecimal

variable {x y z : WideDecimal} {k : Nat}

theorem scale_eq_of_le_one (hz : Working z) (hOne : z.toRat ≤ 1)
    (hKept : z.scale = 57 ∨ leastKept ≤ z.mantissa) : z.scale = 57 := by
  rcases hKept with hScale | hMantissa
  · exact hScale
  · unfold toRat at hOne
    rw [div_le_one (by positivity)] at hOne
    have hUnits : z.mantissa ≤ 10 ^ z.scale := by exact_mod_cast hOne
    have hScale := hz.scale_le
    by_contra hLess
    have hPow : 10 ^ z.scale ≤ 10 ^ 56 := Nat.pow_le_pow_right (by decide) (by omega)
    have hLeast : 10 ^ 56 < leastKept := by decide
    omega

theorem IsProduct.le_one (h : IsProduct x y z) (hLe : x.toRat * y.toRat ≤ 1) : z.toRat ≤ 1 := by
  have := h.le_natCast (N := 1) (by exact_mod_cast hLe)
  exact_mod_cast this

theorem IsProduct.near_of_le_one (h : IsProduct x y z) (hLe : x.toRat * y.toRat ≤ 1) :
    |z.toRat - x.toRat * y.toRat| ≤ 1 / 10 ^ 57 := by
  rcases h.exact_or_near with hExact | ⟨hKept, hNear⟩
  · rw [hExact, sub_self, abs_zero]
    positivity
  · rwa [scale_eq_of_le_one h.working (h.le_one hLe) hKept] at hNear

theorem IsProduct.one_le (h : IsProduct x y z) (hx : 1 ≤ x.toRat) (hy : 1 ≤ y.toRat) :
    1 ≤ z.toRat := by
  have := h.natCast_le (N := 1) (by push_cast; nlinarith)
  simpa using this

theorem leastKept_le_of_one_le (h : 1 ≤ x.toRat) (hKept : x.scale = 57 ∨ leastKept ≤ x.mantissa) :
    leastKept ≤ x.mantissa := by
  rcases hKept with hScale | hMantissa
  · unfold toRat at h
    rw [one_le_div (by positivity), hScale] at h
    have hUnits : 10 ^ 57 ≤ x.mantissa := by exact_mod_cast h
    have hLeast : leastKept ≤ 10 ^ 57 := by decide
    omega
  · exact hMantissa

theorem IsProduct.near_of_one_le (h : IsProduct x y z) (hx : 1 ≤ x.toRat) (hy : 1 ≤ y.toRat) :
    |z.toRat - x.toRat * y.toRat| ≤ z.toRat / 10 ^ 56 := by
  have hOne := h.one_le hx hy
  rcases h.exact_or_near with hExact | ⟨hKept, hNear⟩
  · rw [hExact, sub_self, abs_zero, ← hExact]
    positivity
  · have hMantissa : 10 ^ 56 ≤ z.mantissa :=
      le_trans (by decide) (leastKept_le_of_one_le hOne hKept)
    have hMantissaRat : (10 : ℚ) ^ 56 ≤ z.mantissa := by exact_mod_cast hMantissa
    refine hNear.trans ?_
    unfold toRat
    rw [div_div, div_le_div_iff₀ (by positivity) (by positivity)]
    have hPow : (0 : ℚ) < 10 ^ z.scale := by positivity
    nlinarith

/-- The base after `k` squarings: as many places as its exact power has, or digits were dropped. -/
def Ripe (k : Nat) (x : WideDecimal) : Prop :=
  x.mantissa = 0 ∨ 57 ≤ x.scale ∨ leastKept ≤ x.mantissa ∨ 2 ^ k ≤ x.scale

/-- All the places there are, or nearly all the bits. -/
def Full (x : WideDecimal) : Prop :=
  x.mantissa = 0 ∨ x.scale = 57 ∨ leastKept ≤ x.mantissa

theorem IsProduct.ripe (h : IsProduct x x z) (hx : Ripe k x) : Ripe (k + 1) z := by
  obtain ⟨j, hScale, hBeside, hKept⟩ := h.dropped
  rcases hKept with hZero | rfl | hPlaces | hMantissa
  · exact .inl (Nat.le_zero.mp (hBeside.above (by omega)))
  · have hExact : z.mantissa = x.mantissa * x.mantissa :=
      le_antisymm (hBeside.above (by omega)) (hBeside.below (by omega))
    rcases hx with hNone | hPlaces | hMantissa | hPlaces
    · exact .inl (by rw [hExact, hNone])
    · right
      left
      omega
    · right
      right
      left
      rw [hExact]
      exact hMantissa.trans (Nat.le_mul_self _)
    · right
      right
      right
      rw [pow_succ]
      omega
  · right
    left
    omega
  · exact .inr (.inr (.inl hMantissa))

theorem IsProduct.full (h : IsProduct x y z) (hy : Working y) (hRipe : Ripe k y) (hk : 6 ≤ k) :
    Full z := by
  obtain ⟨j, hScale, hBeside, hKept⟩ := h.dropped
  have hPlaces := h.working.scale_le
  rcases hKept with hZero | rfl | hKept
  · exact .inl (Nat.le_zero.mp (hBeside.above (by omega)))
  · have hExact : z.mantissa = x.mantissa * y.mantissa :=
      le_antisymm (hBeside.above (by omega)) (hBeside.below (by omega))
    rcases hRipe with hNone | hAll | hMantissa | hGrown
    · exact .inl (by rw [hExact, hNone, Nat.mul_zero])
    · right
      left
      omega
    · rcases Nat.eq_zero_or_pos x.mantissa with hNone | hPos
      · exact .inl (by rw [hExact, hNone, Nat.zero_mul])
      · right
        right
        rw [hExact]
        exact hMantissa.trans (Nat.le_mul_of_pos_left _ hPos)
    · have hGrowth : 2 ^ 6 ≤ 2 ^ k := Nat.pow_le_pow_right (by decide) hk
      have := hy.scale_le
      omega
  · exact .inr hKept

/-- What squaring and multiplying with whole numbers gives from below bounds the run. -/
theorem le_of_run {acc base r : WideDecimal} {a b n : Nat} (hAcc : Working acc) (hBase : Working base)
    (ha : (a : ℚ) ≤ acc.toRat) (hb : (b : ℚ) ≤ base.toRat) (hn : n ≠ 0)
    (h : squareAndMultiply mul? acc base n = some r) :
    Working r ∧ ((a * b ^ n : Nat) : ℚ) ≤ r.toRat := by
  let R : Nat → Nat → WideDecimal → Prop := fun _ q z => Working z ∧ (q : ℚ) ≤ z.toRat
  have hMul : ∀ (k a : Nat) (x : WideDecimal) (b : Nat) (y : WideDecimal), R k a x → R k b y →
      Follows (R (k + 1)) (some (a * b)) (x.mul? y) := by
    rintro k a x b y ⟨hx, ha⟩ ⟨hy, hb⟩ z hz
    have hProduct := isProduct_of_mul? hx hy hz
    refine ⟨a * b, rfl, hProduct.working, hProduct.natCast_le ?_⟩
    rw [Nat.cast_mul]
    exact mul_le_mul ha hb (Nat.cast_nonneg b) (toRat_nonneg x)
  have hRun := follows_squareAndMultiply (Z := R) (fun _ _ _ h => h) hMul
    (fun k b y hb => hMul k b y b y hb hb) hMul hn (k := 0) (⟨hAcc, ha⟩ : R 0 a acc)
    (⟨hBase, hb⟩ : R 0 b base)
  obtain ⟨q, hq, hWorking, hLe⟩ := hRun r h
  rw [squareAndMultiply_pow, Option.some_inj] at hq
  subst hq
  exact ⟨hWorking, hLe⟩

theorem exists_run_of_le_one {acc base : WideDecimal} {n : Nat} (hAcc : Working acc)
    (hBase : Working base) (ha : acc.toRat ≤ 1) (hb : base.toRat ≤ 1) (hn : n ≠ 0) :
    ∃ r, squareAndMultiply mul? acc base n = some r ∧ Working r ∧ r.toRat ≤ 1 := by
  let R : Nat → WideDecimal → Nat → Prop := fun _ z q => Working z ∧ z.toRat ≤ 1 ∧ q = 1
  have hMul : ∀ (k : Nat) (x : WideDecimal) (a : Nat) (y : WideDecimal) (b : Nat), R k x a →
      R k y b → Follows (R (k + 1)) (x.mul? y) (some (a * b)) := by
    rintro k x a y b ⟨hx, hxOne, rfl⟩ ⟨hy, hyOne, rfl⟩ _ ⟨⟩
    have hLe : x.toRat * y.toRat ≤ 1 := mul_le_one₀ hxOne (toRat_nonneg y) hyOne
    obtain ⟨z, hz⟩ := exists_mul? (hLe.trans_lt (by norm_num))
    have hProduct := isProduct_of_mul? hx hy hz
    exact ⟨z, hz, hProduct.working, hProduct.le_one hLe, rfl⟩
  have hRun := follows_squareAndMultiply (Z := R) (fun _ _ _ h => h) hMul
    (fun k y b hb => hMul k y b y b hb hb) hMul hn (k := 0) (⟨hAcc, ha, rfl⟩ : R 0 acc 1)
    (⟨hBase, hb, rfl⟩ : R 0 base 1)
  obtain ⟨r, hr, hWorking, hLe, _⟩ := hRun _ (squareAndMultiply_pow 1 1 n)
  exact ⟨r, hr, hWorking, hLe⟩

/-- The product as long as it leaves room for a decimal. -/
def shortMul? (x y : WideDecimal) : Option WideDecimal :=
  (x.mul? y).filter fun z => decide (z.toRat < 2 ^ 96)

theorem shortMul?_eq_some_iff : x.shortMul? y = some z ↔ x.mul? y = some z ∧ z.toRat < 2 ^ 96 := by
  unfold shortMul?
  rw [Option.filter_eq_some_iff, decide_eq_true_iff]

/-- Above one nothing shrinks, so a result that leaves room for a decimal had room all along. -/
theorem run_shortMul? {acc base r : WideDecimal} {n : Nat} (hAcc : Working acc)
    (hBase : Working base) (ha : 1 ≤ acc.toRat) (hb : 1 ≤ base.toRat) (hn : n ≠ 0)
    (h : squareAndMultiply mul? acc base n = some r) (hShort : r.toRat < 2 ^ 96) :
    squareAndMultiply shortMul? acc base n = some r := by
  induction n using Nat.strongRecOn generalizing acc base with
  | ind n ih =>
    unfold squareAndMultiply at h ⊢
    by_cases hLast : n < 2
    · have hn1 : n = 1 := by omega
      subst hn1
      have hMul : acc.mul? base = some r := by simpa using h
      simpa using shortMul?_eq_some_iff.mpr ⟨hMul, hShort⟩
    · simp only [if_neg hLast] at h ⊢
      obtain ⟨acc', hAcc', h⟩ := Option.bind_eq_some_iff.mp h
      obtain ⟨base', hBase', h⟩ := Option.bind_eq_some_iff.mp h
      have hSquare := isProduct_of_mul? hBase hBase hBase'
      have hb' := hSquare.one_le hb hb
      have hNext : Working acc' ∧ 1 ≤ acc'.toRat := by
        split at hAcc'
        · have hProduct := isProduct_of_mul? hAcc hBase hAcc'
          exact ⟨hProduct.working, hProduct.one_le ha hb⟩
        · cases hAcc'
          exact ⟨hAcc, ha⟩
      have hHalf : n / 2 ≠ 0 := by omega
      have hAccShort : acc'.toRat < 2 ^ 96 := by
        by_contra hLong
        have hBound := (le_of_run (a := 2 ^ 96) (b := 1) hNext.1 hSquare.working
          (by push_cast; exact not_lt.mp hLong) (by simpa using hb') hHalf h).2
        rw [one_pow, mul_one] at hBound
        push_cast at hBound
        linarith
      have hBaseShort : base'.toRat < 2 ^ 96 := by
        by_contra hLong
        have hBound := (le_of_run (a := 1) (b := 2 ^ 96) hNext.1 hSquare.working
          (by simpa using hNext.2) (by push_cast; exact not_lt.mp hLong) hHalf h).2
        have hPow : 2 ^ 96 ≤ 1 * (2 ^ 96) ^ (n / 2) := by
          rw [one_mul]
          exact Nat.le_self_pow hHalf _
        have hPowRat : ((2 ^ 96 : Nat) : ℚ) ≤ (1 * (2 ^ 96) ^ (n / 2) : Nat) := by exact_mod_cast hPow
        push_cast at hBound hPowRat
        linarith
      refine Option.bind_eq_some_iff.mpr ⟨acc', ?_, Option.bind_eq_some_iff.mpr ⟨base', ?_, ?_⟩⟩
      · split at hAcc'
        · rename_i hOdd
          rw [if_pos hOdd]
          exact shortMul?_eq_some_iff.mpr ⟨hAcc', hAccShort⟩
        · rename_i hEven
          rwa [if_neg hEven]
      · exact shortMul?_eq_some_iff.mpr ⟨hBase', hBaseShort⟩
      · exact ih (n / 2) (by omega) hNext.1 hSquare.working hNext.2 hb' hHalf h

section Narrowing

variable {d : Decimal} {m s N : Nat}

theorem shortened_of_narrowed (h : x.narrowed = some (m, s)) :
    Shortened 2 28 x.mantissa x.scale m s := by
  unfold narrowed at h
  split at h
  · rename_i hFits
    cases h
    exact ⟨⟨0, rfl, .self _, .inl rfl⟩, hFits.1, hFits.2⟩
  · exact shortened_of_shorten h

theorem toRat_of_toDecimal? (hx : Working x) (h : x.toDecimal? = some d) :
    ∃ m s, x.narrowed = some (m, s) ∧ d.toRat = m / 10 ^ s := by
  obtain ⟨⟨m, s⟩, hNarrowed, h⟩ := Option.bind_eq_some_iff.mp h
  obtain ⟨y, hy, h⟩ := Option.bind_eq_some_iff.mp h
  cases h
  obtain ⟨hMantissa, hScale⟩ := Magnitude.of?_eq_some_iff.mp hy
  refine ⟨m, s, hNarrowed, ?_⟩
  rw [Decimal.toRat_signed, hx.negative_eq, if_neg (by decide)]
  unfold Magnitude.toRat
  rw [hMantissa, hScale]

theorem exists_toDecimal? (hx : Working x) (h : x.narrowed = some (m, s)) :
    ∃ d, x.toDecimal? = some d ∧ d.toRat = m / 10 ^ s := by
  have hSpec := shortened_of_narrowed h
  have hFits : Magnitude.of? m s = some ⟨m, s, hSpec.fits, hSpec.scale_le⟩ :=
    Magnitude.of?_eq_some_iff.mpr ⟨rfl, rfl⟩
  have hDecimal : x.toDecimal? = some (Magnitude.signed ⟨m, s, hSpec.fits, hSpec.scale_le⟩ x.negative) := by
    unfold toDecimal?
    rw [h, Option.bind_eq_bind, Option.bind_some]
    dsimp only
    rw [hFits]
    rfl
  obtain ⟨m', s', h', hValue⟩ := toRat_of_toDecimal? hx hDecimal
  rw [h] at h'
  cases h'
  exact ⟨_, hDecimal, hValue⟩

theorem natCast_le_of_toDecimal? (hx : Working x) (h : x.toDecimal? = some d)
    (hN : (N : ℚ) ≤ x.toRat) : (N : ℚ) ≤ d.toRat := by
  obtain ⟨m, s, hNarrowed, hValue⟩ := toRat_of_toDecimal? hx h
  obtain ⟨k, hScale, hBeside, _⟩ := (shortened_of_narrowed hNarrowed).dropped
  rw [hValue]
  exact hBeside.natCast_le_div hScale hN

theorem le_natCast_of_toDecimal? (hx : Working x) (h : x.toDecimal? = some d)
    (hN : x.toRat ≤ N) : d.toRat ≤ N := by
  obtain ⟨m, s, hNarrowed, hValue⟩ := toRat_of_toDecimal? hx h
  obtain ⟨k, hScale, hBeside, _⟩ := (shortened_of_narrowed hNarrowed).dropped
  rw [hValue]
  exact hBeside.div_le_natCast hScale hN

theorem nonneg_of_toDecimal? (hx : Working x) (h : x.toDecimal? = some d) : 0 ≤ d.toRat := by
  have := natCast_le_of_toDecimal? (N := 0) hx h (by rw [Nat.cast_zero]; exact toRat_nonneg x)
  rwa [Nat.cast_zero] at this

theorem exists_toDecimal?_of_le_one (hx : Working x) (h : x.toRat ≤ 1) :
    ∃ d, x.toDecimal? = some d := by
  have hNarrowed : ∃ m s, x.narrowed = some (m, s) := by
    unfold narrowed
    split
    · exact ⟨_, _, rfl⟩
    · apply exists_shorten
      unfold toRat at h
      rw [div_le_one (by positivity)] at h
      have hUnits : x.mantissa ≤ 10 ^ x.scale := by exact_mod_cast h
      have hPow : 0 < 10 ^ x.scale := by positivity
      omega
  obtain ⟨m, s, hNarrowed⟩ := hNarrowed
  obtain ⟨d, hd, _⟩ := exists_toDecimal? hx hNarrowed
  exact ⟨d, hd⟩

end Narrowing

end WideDecimal

end BondingCurve
