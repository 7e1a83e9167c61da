import BondingCurve.Json.Parser
import BondingCurve.Json.Printer

/-!
# Strings read back

Whatever characters a string has, each of them is escaped or stands for itself, and none of them is half
of a surrogate pair.
-/

namespace BondingCurve.Json

open Text (hexDigit hexValue? hexValue?_hexDigit)

variable {c e : Char} {cs rest : List Char} {codes : List Nat}

theorem shortEscaped?_of_shortEscape? (h : shortEscape? c = some e) :
    shortEscaped? e = some c ∧ e ≠ 'u' := by
  unfold shortEscape? at h
  repeat' split at h
  all_goals first | (cases h; subst_vars; decide) | cases h

theorem ne_of_shortEscape?_eq_none (h : shortEscape? c = none) : c ≠ '"' ∧ c ≠ '\\' := by
  constructor
  · rintro rfl
    cases h
  · rintro rfl
    cases h

theorem hexCode?_hexDigit {n : Nat} (h : n < 0x20) :
    hexCode? '0' '0' (hexDigit (n / 16)) (hexDigit n) = some n := by
  have hHigh := hexValue?_hexDigit (n / 16) (by omega)
  have hLow : hexValue? (hexDigit n) = some (n % 16) := by
    have hMod : hexDigit n = hexDigit (n % 16) := by rw [hexDigit, hexDigit, Nat.mod_mod]
    rw [hMod, hexValue?_hexDigit _ (Nat.mod_lt _ (by decide))]
  have hZero : hexValue? '0' = some 0 := rfl
  simp only [hexCode?, hHigh, hLow, hZero, Option.pure_def, Option.bind_eq_bind, Option.bind_some]
  congr 1
  omega

theorem readCodes_escapeChar (h : readCodes cs = some (codes, rest)) :
    readCodes (escapeChar c ++ cs) = some (c.toNat :: codes, rest) := by
  rw [escapeChar]
  split
  · rename_i e hEscape
    obtain ⟨hBack, hPlain⟩ := shortEscaped?_of_shortEscape? hEscape
    change readCodes ('\\' :: e :: cs) = _
    rw [readCodes.eq_4 e cs fun _ _ _ _ _ hMark _ => hPlain hMark, hBack, h]
    rfl
  · rename_i hNone
    obtain ⟨hQuote, hSlash⟩ := ne_of_shortEscape?_eq_none hNone
    split
    · rename_i hControl
      change readCodes ('\\' :: 'u' :: '0' :: '0' :: hexDigit (c.toNat / 16) :: hexDigit c.toNat :: cs) = _
      rw [readCodes.eq_3, hexCode?_hexDigit hControl, h]
      rfl
    · rename_i hPrinted
      change readCodes (c :: cs) = _
      rw [readCodes.eq_5 c cs hQuote (fun _ _ _ _ _ hMark _ => hSlash hMark)
        (fun _ _ hMark _ => hSlash hMark), if_neg hPrinted, h]
      rfl

theorem readCodes_flatMap_escapeChar (cs rest : List Char) :
    readCodes (cs.flatMap escapeChar ++ '"' :: rest) = some (cs.map Char.toNat, rest) := by
  induction cs with
  | nil => rw [List.flatMap_nil, List.nil_append, readCodes.eq_2, List.map_nil]
  | cons c cs ih =>
    rw [List.flatMap_cons, List.append_assoc, List.map_cons]
    exact readCodes_escapeChar ih

theorem not_surrogate (c : Char) : ¬(0xD800 ≤ c.toNat ∧ c.toNat < 0xE000) := by
  have hValid : c.toNat < 0xD800 ∨ 0xDFFF < c.toNat ∧ c.toNat < 0x110000 := c.valid
  omega

theorem joinPairs_toNat (cs : List Char) : joinPairs (cs.map Char.toNat) = some cs := by
  induction cs with
  | nil => rfl
  | cons c cs ih =>
    have hWhole := not_surrogate c
    cases cs with
    | nil =>
      rw [List.map_cons, List.map_nil, joinPairs.eq_3, if_neg hWhole, Char.ofNat_toNat]
    | cons d ds =>
      rw [List.map_cons] at ih
      rw [List.map_cons, List.map_cons, joinPairs.eq_2, if_neg (by omega), if_neg hWhole, ih,
        Option.map_some, Char.ofNat_toNat]

/-- A string is read up to its closing quote. -/
theorem readText_escaped (s : String) (rest : List Char) :
    readText (s.toList.flatMap escapeChar ++ '"' :: rest) = some (some s, rest) := by
  rw [readText, readCodes_flatMap_escapeChar, Option.map_some]
  dsimp only
  rw [joinPairs_toNat, Option.map_some, String.ofList_toList]

/-- Half of a surrogate pair can be skipped, and denotes nothing. -/
theorem readText_unpaired (rest : List Char) :
    readText ('\\' :: 'u' :: 'd' :: '8' :: '0' :: '0' :: '"' :: rest) = some (none, rest) := by
  have hCode : hexCode? 'd' '8' '0' '0' = some 0xD800 := by decide
  have hHalf : joinPairs [0xD800] = none := by decide
  rw [readText, readCodes.eq_3, hCode, readCodes.eq_2]
  change some ((joinPairs [0xD800]).map String.ofList, rest) = _
  rw [hHalf]
  rfl

end BondingCurve.Json
