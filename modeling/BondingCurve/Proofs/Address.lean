import BondingCurve.Address
import BondingCurve.Proofs.Text.Blank
import BondingCurve.Proofs.Traversal
import Mathlib.Tactic.IntervalCases

/-!
# Addresses read back

A text is read as an address if and only if it is sixty-four hexadecimal digits, which in lower case are the
address as it is written, after one `0x` at most and with blanks around. Every other text is refused. So is a
list of texts with such a one in it, and any other list gives its addresses in order.
-/

namespace BondingCurve

namespace Text

variable {c : Char} {n : Nat}

def IsHexDigit (c : Char) : Prop :=
  '0' ≤ c ∧ c ≤ '9' ∨ 'a' ≤ c ∧ c ≤ 'f' ∨ 'A' ≤ c ∧ c ≤ 'F'

instance (c : Char) : Decidable (IsHexDigit c) :=
  inferInstanceAs (Decidable (_ ∨ _))

theorem IsHexDigit.toNat_range (h : IsHexDigit c) :
    48 ≤ c.toNat ∧ c.toNat ≤ 57 ∨ 97 ≤ c.toNat ∧ c.toNat ≤ 102 ∨ 65 ≤ c.toNat ∧ c.toNat ≤ 70 := h

theorem IsHexDigit.isBlank_eq_false (h : IsHexDigit c) : isBlank c = false := by
  have hRange := h.toNat_range
  exact isBlank_eq_false_of_visible (by omega) (by omega)

theorem isHexDigit_of_hexValue? (h : hexValue? c = some n) : IsHexDigit c := by
  unfold hexValue? at h
  split at h
  · exact .inl ‹_›
  · split at h
    · exact .inr (.inl ‹_›)
    · split at h
      · exact .inr (.inr ‹_›)
      · cases h

theorem IsHexDigit.exists_value (h : IsHexDigit c) :
    ∃ n < 16, hexValue? c = some n ∧ c.toLower = hexDigit n := by
  have hRange := h.toNat_range
  rw [← Char.ofNat_toNat c]
  generalize c.toNat = code at hRange
  obtain ⟨hLow, hHigh⟩ | ⟨hLow, hHigh⟩ | ⟨hLow, hHigh⟩ := hRange
  · interval_cases code <;> decide
  · interval_cases code <;> decide
  · interval_cases code <;> decide

/-- A digit of either case has the value of its lower-case form. -/
theorem hexValue?_eq_some_iff : hexValue? c = some n ↔ IsHexDigit c ∧ n < 16 ∧ c.toLower = hexDigit n := by
  constructor
  · intro h
    have hDigit := isHexDigit_of_hexValue? h
    obtain ⟨m, hm, hValue, hLower⟩ := hDigit.exists_value
    rw [h] at hValue
    cases hValue
    exact ⟨hDigit, hm, hLower⟩
  · rintro ⟨hDigit, hn, hLower⟩
    obtain ⟨m, hm, hValue, hLower'⟩ := hDigit.exists_value
    have hSame := hexValue?_hexDigit m hm
    rw [← hLower', hLower, hexValue?_hexDigit n hn] at hSame
    rw [hValue, ← hSame]

end Text

namespace Address

open Text

variable {a : Address} {as : List Address} {cs digits : List Char} {bytes : List UInt8} {s : String}

theorem hexChars_cons (b : UInt8) (bs : List UInt8) :
    hexChars (b :: bs) = hexDigit (b.toNat / 16) :: hexDigit (b.toNat % 16) :: hexChars bs := by
  simp [hexChars, hexDigit]

theorem length_hexChars (bytes : List UInt8) : (hexChars bytes).length = 2 * bytes.length := by
  induction bytes with
  | nil => rfl
  | cons b bs ih =>
    rw [hexChars_cons, List.length_cons, List.length_cons, List.length_cons, ih]
    omega

/-- Two digits are the byte whose two digits they are in lower case. -/
theorem readHex_eq_some_iff : readHex cs = some bytes ↔
    (∀ c ∈ cs, IsHexDigit c) ∧ cs.map Char.toLower = hexChars bytes := by
  induction cs using readHex.induct generalizing bytes with
  | case1 =>
    cases bytes with
    | nil => simp [readHex, hexChars]
    | cons b bs => simp [readHex, hexChars_cons]
  | case2 c =>
    cases bytes with
    | nil => simp [readHex, hexChars]
    | cons b bs => simp [readHex, hexChars_cons]
  | case3 c d cs ih =>
    simp only [readHex, Option.bind_eq_bind, Option.bind_eq_some_iff, Option.pure_def, Option.some.injEq,
      hexValue?_eq_some_iff, ih, List.forall_mem_cons, List.map_cons]
    constructor
    · rintro ⟨high, ⟨hFirst, hHigh, hUpper⟩, low, ⟨hSecond, hLow, hLower⟩, rest, ⟨hRest, hChars⟩, rfl⟩
      have hByte : (UInt8.ofNat (16 * high + low)).toNat = 16 * high + low := by
        rw [UInt8.toNat_ofNat', Nat.mod_eq_of_lt (by omega)]
      have hDiv : (16 * high + low) / 16 = high := by omega
      have hMod : (16 * high + low) % 16 = low := by omega
      refine ⟨⟨hFirst, hSecond, hRest⟩, ?_⟩
      rw [hexChars_cons, hByte, hDiv, hMod, hUpper, hLower, hChars]
    · rintro ⟨⟨hFirst, hSecond, hRest⟩, hChars⟩
      cases bytes with
      | nil => simp [hexChars] at hChars
      | cons b bs =>
        rw [hexChars_cons] at hChars
        obtain ⟨hUpper, hChars⟩ := List.cons.inj hChars
        obtain ⟨hLower, hChars⟩ := List.cons.inj hChars
        have hByte := b.toNat_lt
        refine ⟨b.toNat / 16, ⟨hFirst, by omega, hUpper⟩, b.toNat % 16, ⟨hSecond, by omega, hLower⟩, bs,
          ⟨hRest, hChars⟩, ?_⟩
        rw [Nat.div_add_mod, UInt8.ofNat_toNat]

theorem ofBytes?_eq_some_iff : ofBytes? bytes = some a ↔ bytes = a.bytes := by
  unfold ofBytes?
  constructor
  · intro h
    split at h
    · cases h
      rfl
    · cases h
  · rintro rfl
    rw [dif_pos a.size_eq]

/-- The digits of an address, in either case. -/
structure DigitsOf (a : Address) (digits : List Char) : Prop where
  count : digits.length = 64
  hex : ∀ c ∈ digits, IsHexDigit c
  lower : digits.map Char.toLower = a.toChars

theorem digitsOf_iff : a.DigitsOf digits ↔ (readHex digits).bind ofBytes? = some a := by
  rw [Option.bind_eq_some_iff]
  constructor
  · intro h
    exact ⟨a.bytes, readHex_eq_some_iff.mpr ⟨h.hex, h.lower⟩, ofBytes?_eq_some_iff.mpr rfl⟩
  · rintro ⟨bytes, hRead, hBytes⟩
    rw [ofBytes?_eq_some_iff] at hBytes
    obtain ⟨hHex, hLower⟩ := readHex_eq_some_iff.mp hRead
    rw [hBytes] at hLower
    refine ⟨?_, hHex, hLower⟩
    have hLength := congrArg List.length hLower
    rwa [List.length_map, length_hexChars, a.size_eq] at hLength

/-- A text of the address: its digits, after one mark at most and between blanks. -/
def SpelledBy (a : Address) (text : List Char) : Prop :=
  ∃ before mark digits after, text = before ++ (mark ++ digits) ++ after ∧ Blank before ∧ Blank after ∧
    (mark = [] ∨ mark = ['0', 'x']) ∧ a.DigitsOf digits

theorem exists_mark (cs : List Char) : ∃ mark, (mark = [] ∨ mark = ['0', 'x']) ∧ cs = mark ++ dropMark cs := by
  unfold dropMark
  split
  · exact ⟨['0', 'x'], .inr rfl, rfl⟩
  · exact ⟨[], .inl rfl, rfl⟩

theorem dropMark_append {mark : List Char} (hMark : mark = [] ∨ mark = ['0', 'x'])
    (hHex : ∀ c ∈ digits, IsHexDigit c) : dropMark (mark ++ digits) = digits := by
  obtain rfl | rfl := hMark
  · unfold dropMark
    split
    · rename_i rest hMark
      -- no digit is the second character of a mark
      have hDigits : digits = '0' :: 'x' :: rest := hMark
      exact absurd (hHex 'x' (by simp [hDigits])) (by decide)
    · rfl
  · rfl

theorem read?_eq_some_iff : read? cs = some a ↔ a.SpelledBy cs := by
  rw [read?, ← digitsOf_iff]
  constructor
  · intro h
    obtain ⟨before, after, hBefore, hAfter, hText⟩ := exists_surrounding cs
    obtain ⟨mark, hMark, hTrim⟩ := exists_mark (trim cs)
    rw [hTrim] at hText
    exact ⟨before, mark, _, after, hText, hBefore, hAfter, hMark, h⟩
  · rintro ⟨before, mark, digits, after, rfl, hBefore, hAfter, hMark, h⟩
    have hVisible : ∀ c ∈ mark ++ digits, isBlank c = false := by
      intro c hc
      obtain hc | hc := List.mem_append.mp hc
      · have hZeroX : ∀ c ∈ mark, isBlank c = false := by
          obtain rfl | rfl := hMark
          · simp
          · simpa using ⟨(by decide : isBlank '0' = false), (by decide : isBlank 'x' = false)⟩
        exact hZeroX c hc
      · exact (h.hex c hc).isBlank_eq_false
    rw [trim_surrounded hBefore hAfter, trim_eq_self_of_forall hVisible, dropMark_append hMark h.hex]
    exact h

theorem ofString_eq_ok_iff : ofString s = .ok a ↔ a.SpelledBy s.toList := by
  rw [← read?_eq_some_iff, ofString]
  cases read? s.toList <;> simp

theorem ofString_eq_error_iff {e : Error} :
    ofString s = .error e ↔ (∀ a : Address, ¬a.SpelledBy s.toList) ∧ e = .invalidAddress s := by
  simp only [← read?_eq_some_iff, ofString]
  cases read? s.toList <;> simp [eq_comm]

theorem spelledBy_trim_iff : a.SpelledBy (trim cs) ↔ a.SpelledBy cs := by
  rw [← read?_eq_some_iff, ← read?_eq_some_iff, read?, read?, trim_trim]

theorem isHexDigit_hexDigit (n : Nat) : IsHexDigit (hexDigit n) ∧ (hexDigit n).toLower = hexDigit n := by
  have hValue := hexValue?_hexDigit (n % 16) (Nat.mod_lt _ (by decide))
  obtain ⟨hDigit, _, hLower⟩ := hexValue?_eq_some_iff.mp hValue
  rw [hexDigit, Nat.mod_mod] at hDigit hLower
  exact ⟨hDigit, hLower⟩

theorem exists_hexDigit_of_mem {c : Char} (hc : c ∈ hexChars bytes) : ∃ n, c = hexDigit n := by
  induction bytes with
  | nil => cases hc
  | cons b bs ih =>
    rw [hexChars_cons, List.mem_cons, List.mem_cons] at hc
    obtain rfl | rfl | hRest := hc
    · exact ⟨_, rfl⟩
    · exact ⟨_, rfl⟩
    · exact ih hRest

theorem digitsOf_toChars (a : Address) : a.DigitsOf a.toChars where
  count := by rw [toChars, length_hexChars, a.size_eq]
  hex c hc := by
    obtain ⟨n, rfl⟩ := exists_hexDigit_of_mem hc
    exact (isHexDigit_hexDigit n).1
  lower := by
    have hSame : ∀ c ∈ a.toChars, c.toLower = id c := by
      intro c hc
      obtain ⟨n, rfl⟩ := exists_hexDigit_of_mem hc
      exact (isHexDigit_hexDigit n).2
    rw [List.map_congr_left hSame, List.map_id]

theorem ofString_toString (a : Address) : ofString (toString a) = .ok a := by
  have hChars : (toString a).toList = a.toChars := String.toList_ofList
  rw [ofString_eq_ok_iff, hChars]
  exact ⟨[], [], a.toChars, [], by simp, blank_nil, blank_nil, .inl rfl, a.digitsOf_toChars⟩

theorem SpelledBy.comma_not_mem (h : a.SpelledBy cs) : ',' ∉ cs := by
  obtain ⟨before, mark, digits, after, rfl, hBefore, hAfter, hMark, hDigits⟩ := h
  have hVisible : isBlank ',' = false := by decide
  simp only [List.mem_append, not_or]
  refine ⟨⟨hBefore.not_mem hVisible, ?_, fun hc => ?_⟩, hAfter.not_mem hVisible⟩
  · obtain rfl | rfl := hMark <;> decide
  · exact absurd (hDigits.hex _ hc) (by decide)

theorem listOfString_eq_ok_iff : listOfString s = .ok as ↔
    List.Forall₂ (fun entry (a : Address) => a.SpelledBy entry) (s.toList.splitOn ',') as := by
  simp only [listOfString, mapM_eq_ok_iff_forall₂, ofString_eq_ok_iff, String.toList_ofList, spelledBy_trim_iff]

theorem exists_listOfString_iff :
    (∃ as, listOfString s = .ok as) ↔ ∀ entry ∈ s.toList.splitOn ',', ∃ a : Address, a.SpelledBy entry := by
  simp only [listOfString, exists_mapM_eq_ok_iff, ofString_eq_ok_iff, String.toList_ofList, spelledBy_trim_iff]

theorem listOfString_eq_error_iff {e : Error} : listOfString s = .error e ↔
    ∃ before entry after, s.toList.splitOn ',' = before ++ entry :: after ∧
      (∀ b ∈ before, ∃ a : Address, a.SpelledBy b) ∧ (∀ a : Address, ¬a.SpelledBy entry) ∧
      e = .invalidAddress (String.ofList (trim entry)) := by
  simp only [listOfString, mapM_eq_error_iff, ofString_eq_ok_iff, ofString_eq_error_iff, String.toList_ofList,
    spelledBy_trim_iff]

theorem listOfString_intercalate {texts : List (List Char)} (hSome : as ≠ [])
    (h : List.Forall₂ (fun text (a : Address) => a.SpelledBy text) texts as) :
    listOfString (String.ofList ([','].intercalate texts)) = .ok as := by
  have hEach : List.Forall₂ (fun text (a : Address) => ',' ∉ text ∧ a.SpelledBy text) texts as :=
    h.imp fun _ _ hSpelled => ⟨hSpelled.comma_not_mem, hSpelled⟩
  obtain ⟨hNoComma, _⟩ := (List.forall₂_and_left _ _).mp hEach
  have hTexts : texts ≠ [] := by
    rintro rfl
    exact hSome (List.forall₂_nil_left_iff.mp h)
  rw [listOfString_eq_ok_iff, String.toList_ofList, List.splitOn_intercalate ',' hNoComma hTexts]
  exact h

/-- The written form of an address reads back, and so does each of its spellings; no other text reads, and
the error shows it. Spellings between commas read as the addresses in their order. A text between commas that
spells none makes an error of the whole, and the first is shown. -/
theorem reads_iff_spelled :
    (∀ a : Address, ofString (toString a) = .ok a) ∧
    (∀ (s : String) (a : Address), ofString s = .ok a ↔ a.SpelledBy s.toList) ∧
    (∀ (s : String) (e : Error), ofString s = .error e ↔
      (∀ a : Address, ¬a.SpelledBy s.toList) ∧ e = .invalidAddress s) ∧
    (∀ (texts : List (List Char)) (as : List Address), as ≠ [] →
      List.Forall₂ (fun text (a : Address) => a.SpelledBy text) texts as →
      listOfString (String.ofList ([','].intercalate texts)) = .ok as) ∧
    (∀ s : String, (∃ e, listOfString s = .error e) ↔
      ∃ entry ∈ s.toList.splitOn ',', ∀ a : Address, ¬a.SpelledBy entry) ∧
    ∀ (s : String) (e : Error), listOfString s = .error e ↔
      ∃ before entry after, s.toList.splitOn ',' = before ++ entry :: after ∧
        (∀ b ∈ before, ∃ a : Address, a.SpelledBy b) ∧ (∀ a : Address, ¬a.SpelledBy entry) ∧
        e = .invalidAddress (String.ofList (trim entry)) := by
  refine ⟨ofString_toString, fun _ _ => ofString_eq_ok_iff, fun _ _ => ofString_eq_error_iff,
    fun _ _ => listOfString_intercalate, fun s => ?_, fun _ _ => listOfString_eq_error_iff⟩
  have hRead := exists_listOfString_iff (s := s)
  cases hList : listOfString s with
  | ok as =>
    have hAll := hRead.mp ⟨as, hList⟩
    constructor
    · rintro ⟨e, h⟩
      cases h
    · rintro ⟨entry, hEntry, hNone⟩
      obtain ⟨a, ha⟩ := hAll entry hEntry
      exact absurd ha (hNone a)
  | error e =>
    obtain ⟨before, entry, after, hSplit, _, hNone, _⟩ := listOfString_eq_error_iff.mp hList
    refine ⟨fun _ => ⟨entry, ?_, hNone⟩, fun _ => ⟨e, rfl⟩⟩
    rw [hSplit]
    exact List.mem_append_right before List.mem_cons_self

/-- Thirty-two times the byte `0xAB`. -/
def allAB : Address := ⟨List.replicate 32 0xAB, by decide⟩

/-- The digits of `allAB` in mixed case under a mark, an ideographic space behind them. -/
def mixedCase : List Char := ['0', 'x'] ++ (List.replicate 32 ['a', 'B']).flatten ++ ['\u3000']

theorem spelledBy_mixedCase : allAB.SpelledBy mixedCase := by
  have hHex : ∀ c ∈ (List.replicate 32 ['a', 'B']).flatten, IsHexDigit c := by
    intro c hc
    obtain ⟨pair, hPair, hc⟩ := List.mem_flatten.mp hc
    rw [List.eq_of_mem_replicate hPair] at hc
    simp only [List.mem_cons, List.not_mem_nil, or_false] at hc
    obtain rfl | rfl := hc <;> decide
  exact ⟨[], ['0', 'x'], _, ['\u3000'], rfl, blank_nil, by decide, .inr rfl, by decide, hHex, by decide⟩

/-- A second mark and an empty list are refused. -/
theorem reads_iff_spelled_mixedCase :
    ofString (String.ofList mixedCase) = .ok allAB ∧
    listOfString (String.ofList ([','].intercalate [mixedCase, zero.toChars])) = .ok [allAB, zero] ∧
    (∀ a : Address, ¬a.SpelledBy ("0x".toList ++ mixedCase)) ∧
    ∃ e, listOfString "" = .error e := by
  obtain ⟨hWritten, hText, hRefused, hList, hSome, _⟩ := reads_iff_spelled
  refine ⟨?_, ?_, ?_, ?_⟩
  · exact (hText _ _).mpr (by rw [String.toList_ofList]; exact spelledBy_mixedCase)
  · have hZero : zero.SpelledBy zero.toChars := by
      have h := (hText _ _).mp (hWritten zero)
      rwa [toString, instToString, String.toList_ofList] at h
    exact hList _ _ (by simp) (.cons spelledBy_mixedCase (.cons hZero .nil))
  · have hDoubled : ofString (String.ofList ("0x".toList ++ mixedCase)) =
        .error (.invalidAddress (String.ofList ("0x".toList ++ mixedCase))) := by decide +kernel
    have hNone := ((hRefused _ _).mp hDoubled).1
    rwa [String.toList_ofList] at hNone
  · refine (hSome "").mpr ⟨[], by decide, fun a h => ?_⟩
    have hEmpty := read?_eq_some_iff.mpr h
    simp [read?, dropMark, readHex, ofBytes?, trim_nil] at hEmpty

end Address

end BondingCurve
