import BondingCurve.Json.Parser
import BondingCurve.Json.Printer
import BondingCurve.Proofs.Text.Digits

/-!
# Numbers read back

A number ends where nothing follows that could belong to it, and is read with the digits it was written
with.
-/

namespace BondingCurve.Json

open Text (ofDigits_toDigits isDigit_of_mem_toDigits head_toDigits eq_zero_of_head?_toDigits)

variable {ds rest : List Char}

/-- Nothing in front that a number could go on with. -/
def Stops (rest : List Char) : Prop :=
  ∀ c ∈ rest.head?, c.isDigit = false ∧ c ≠ '.' ∧ c ≠ 'e' ∧ c ≠ 'E'

theorem stops_nil : Stops [] := nofun

/-- Digits end here. -/
def Cut (rest : List Char) : Prop := ∀ c ∈ rest.head?, c.isDigit = false

theorem Stops.cut (h : Stops rest) : Cut rest := fun c hc => (h c hc).1

theorem cut_cons {c : Char} (h : c.isDigit = false) : Cut (c :: rest) := by
  rintro _ ⟨⟩
  exact h

theorem spanDigits_append (hDigits : ∀ c ∈ ds, c.isDigit = true) (hRest : Cut rest) :
    spanDigits (ds ++ rest) = (ds, rest) := by
  have hNone : rest.takeWhile Char.isDigit = [] ∧ rest.dropWhile Char.isDigit = rest := by
    cases rest with
    | nil => exact ⟨rfl, rfl⟩
    | cons c cs => simp [hRest c rfl]
  rw [spanDigits, List.takeWhile_append_of_pos hDigits, List.dropWhile_append_of_pos hDigits, hNone.1,
    hNone.2, List.append_nil]

theorem readWhole_toDigits (n : Nat) (hRest : Cut rest) :
    readWhole (Nat.toDigits 10 n ++ rest) = some (n, rest) := by
  rw [readWhole, spanDigits_append isDigit_of_mem_toDigits hRest]
  dsimp only
  rw [if_neg, ofDigits_toDigits]
  rintro (hNone | ⟨hZero, hLong⟩)
  · exact Nat.toDigits_ne_nil hNone
  · rw [eq_zero_of_head?_toDigits hZero] at hLong
    exact hLong (Nat.toDigits_zero 10)

def fractionChars (fraction : List (Fin 10)) : List Char :=
  if fraction = [] then [] else '.' :: fraction.map fun d => Nat.digitChar d.val

def exponentChars : Option Int → List Char
  | none => []
  | some (.ofNat e) => 'e' :: Nat.toDigits 10 e
  | some (.negSucc e) => 'e' :: '-' :: Nat.toDigits 10 (e + 1)

theorem Number.chars_eq (n : Number) : n.chars = (if n.negative then ['-'] else []) ++
    (Nat.toDigits 10 n.whole ++ (fractionChars n.fraction ++ exponentChars n.exponent)) := by
  rw [← List.append_assoc (Nat.toDigits _ _), ← List.append_assoc, ← List.append_assoc]
  rcases n with ⟨negative, whole, fraction, _ | e | e⟩ <;> rfl

theorem Number.head_chars (n : Number) : ∃ c cs, n.chars = c :: cs ∧ (c = '-' ∨ c.isDigit = true) := by
  rw [n.chars_eq]
  split
  · exact ⟨'-', _, rfl, .inl rfl⟩
  · obtain ⟨c, cs, hDigits, hDigit⟩ := head_toDigits n.whole
    rw [hDigits]
    exact ⟨c, _, rfl, .inr hDigit⟩

theorem cut_exponentChars (exponent : Option Int) (hRest : Stops rest) :
    Cut (exponentChars exponent ++ rest) := by
  rcases exponent with _ | e | e
  · exact hRest.cut
  · exact cut_cons (by decide)
  · exact cut_cons (by decide)

theorem readFraction_of_ne (h : ∀ c ∈ rest.head?, c ≠ '.') : readFraction rest = some ([], rest) := by
  unfold readFraction
  split
  · exact absurd rfl (h '.' rfl)
  · rfl

theorem digitOf_digitChar : ∀ d : Fin 10, digitOf (Nat.digitChar d.val) = d := by decide

theorem readFraction_fractionChars (fraction : List (Fin 10)) (exponent : Option Int) (hRest : Stops rest) :
    readFraction (fractionChars fraction ++ (exponentChars exponent ++ rest)) =
      some (fraction, exponentChars exponent ++ rest) := by
  have hCut := cut_exponentChars exponent hRest
  rw [fractionChars]
  split
  · rename_i hNone
    rw [hNone, List.nil_append]
    apply readFraction_of_ne
    rcases exponent with _ | e | e
    · exact fun c hc => (hRest c hc).2.1
    · rintro _ ⟨⟩
      decide
    · rintro _ ⟨⟩
      decide
  · rename_i hSome
    have hDigits : ∀ c ∈ fraction.map fun d => Nat.digitChar d.val, c.isDigit = true := by
      intro c hc
      obtain ⟨d, _, rfl⟩ := List.mem_map.mp hc
      simp [Nat.isDigit_digitChar]
    have hBack : (fraction.map fun d => Nat.digitChar d.val).map digitOf = fraction := by
      rw [List.map_map]
      exact (List.map_congr_left fun d _ => digitOf_digitChar d).trans (List.map_id _)
    rw [List.cons_append, readFraction, spanDigits_append hDigits hCut]
    dsimp only
    rw [if_neg (by simpa using hSome), hBack]

theorem readSign_toDigits (n : Nat) :
    readSign (Nat.toDigits 10 n ++ rest) = (false, Nat.toDigits 10 n ++ rest) := by
  obtain ⟨c, cs, hDigits, hDigit⟩ := head_toDigits n
  rw [hDigits, List.cons_append]
  unfold readSign
  split
  · rename_i hMinus
    cases hMinus
    cases hDigit
  · rename_i hPlus
    cases hPlus
    cases hDigit
  · rfl

theorem readExponent_exponentChars (exponent : Option Int) (hRest : Stops rest) :
    readExponent (exponentChars exponent ++ rest) = some (exponent, rest) := by
  rcases exponent with _ | e | e
  · rw [exponentChars, List.nil_append]
    cases rest with
    | nil => rfl
    | cons c cs =>
      obtain ⟨_, _, hSmall, hCapital⟩ := hRest c rfl
      rw [readExponent, if_neg (by simp [hSmall, hCapital])]
  · rw [exponentChars, List.cons_append, readExponent, if_pos (.inl rfl), readSign_toDigits]
    dsimp only
    rw [spanDigits_append isDigit_of_mem_toDigits hRest.cut, if_neg Nat.toDigits_ne_nil, ofDigits_toDigits]
    rfl
  · rw [exponentChars, List.cons_append, List.cons_append, readExponent, if_pos (.inl rfl), readSign]
    dsimp only
    rw [spanDigits_append isDigit_of_mem_toDigits hRest.cut, if_neg Nat.toDigits_ne_nil, ofDigits_toDigits]
    rfl

/-- A number after its sign. -/
theorem readUnsigned_chars (negative : Bool) (whole : Nat) (fraction : List (Fin 10))
    (exponent : Option Int) (hRest : Stops rest) :
    (do
      let (whole, cs) ← readWhole (Nat.toDigits 10 whole ++
        (fractionChars fraction ++ (exponentChars exponent ++ rest)))
      let (fraction, cs) ← readFraction cs
      let (exponent, cs) ← readExponent cs
      return ((⟨negative, whole, fraction, exponent⟩ : Number), cs)) =
      some (⟨negative, whole, fraction, exponent⟩, rest) := by
  have hCut : Cut (fractionChars fraction ++ (exponentChars exponent ++ rest)) := by
    rw [fractionChars]
    split
    · exact cut_exponentChars exponent hRest
    · exact cut_cons (by decide)
  simp only [readWhole_toDigits whole hCut, readFraction_fractionChars fraction exponent hRest,
    readExponent_exponentChars exponent hRest, Option.bind_eq_bind, Option.bind_some]
  rfl

theorem readNumber_chars (n : Number) (hRest : Stops rest) :
    readNumber (n.chars ++ rest) = some (n, rest) := by
  rw [n.chars_eq]
  rcases n with ⟨negative, whole, fraction, exponent⟩
  have hUnsigned := readUnsigned_chars negative whole fraction exponent hRest
  cases negative with
  | true =>
    simp only [if_true, List.cons_append, List.nil_append, List.append_assoc]
    exact hUnsigned
  | false =>
    obtain ⟨c, cs, hDigits, hDigit⟩ := head_toDigits whole
    simp only [Bool.false_eq_true, if_false, List.nil_append, List.append_assoc]
    rw [hDigits, List.cons_append] at hUnsigned ⊢
    unfold readNumber
    split
    rename_i hMatch
    split at hMatch
    · rename_i hMinus
      cases hMinus
      cases hDigit
    · cases hMatch
      exact hUnsigned

end BondingCurve.Json
