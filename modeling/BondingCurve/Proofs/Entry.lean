import BondingCurve.Entry
import BondingCurve.Proofs.Decimal.Text
import BondingCurve.Proofs.Params
import BondingCurve.Proofs.Text.Blank
import BondingCurve.Proofs.Text.ByteOrder
import BondingCurve.Proofs.Traversal

/-!
# Parameters as they are typed

A text of parameters is accepted if it is blank or each entry between its commas is a name, a colon and a
number, and is otherwise refused for the first that is not. The set it stands for holds the last entry of
each name, by name. Typing parameters, with blanks wherever they may stand, and reading them gives them back.
-/

namespace BondingCurve

namespace Decimal

open Text

theorem Numeral.isBlank_eq_false {c : Char} (h : Numeral c) : isBlank c = false := by
  obtain hDigit | rfl | rfl := h
  · have hRange : 48 ≤ c.toNat ∧ c.toNat ≤ 57 := by
      simp only [Char.isDigit, Bool.and_eq_true, decide_eq_true_eq] at hDigit
      exact hDigit
    exact isBlank_eq_false_of_visible (by omega) (by omega)
  · decide
  · decide

theorem trim_toChars (x : Decimal) : trim x.toChars = x.toChars :=
  trim_eq_self_of_forall fun _ hc => (x.numeral_of_mem_toChars hc).isBlank_eq_false

end Decimal

namespace Params

open Text

variable {ps acc : List Param} {p q : Param} {params : Params} {entry : List Char} {s : String} {e : Error}

section ByName

/-- The last entry of its name. -/
def IsLast (ps : List Param) (p : Param) : Prop :=
  ∃ before after, ps = before ++ p :: after ∧ ∀ q ∈ after, q.name ≠ p.name

theorem isLast_cons_iff : IsLast (q :: ps) p ↔ IsLast ps p ∨ p = q ∧ ∀ r ∈ ps, r.name ≠ p.name := by
  constructor
  · rintro ⟨before, after, hList, hAfter⟩
    obtain ⟨rfl, hRest⟩ | ⟨before', rfl, hRest⟩ := List.cons_eq_append_iff.mp hList
    · cases hRest
      exact .inr ⟨rfl, hAfter⟩
    · exact .inl ⟨before', after, hRest, hAfter⟩
  · rintro (⟨before, after, rfl, hAfter⟩ | ⟨rfl, hNone⟩)
    · exact ⟨q :: before, after, rfl, hAfter⟩
    · exact ⟨[], ps, rfl, hNone⟩

theorem IsLast.mem (h : IsLast ps p) : p ∈ ps := by
  obtain ⟨before, after, rfl, _⟩ := h
  simp

theorem exists_isLast (h : q ∈ ps) : ∃ p, IsLast ps p ∧ p.name = q.name := by
  induction ps generalizing q with
  | nil => cases h
  | cons r rs ih =>
    by_cases hLater : ∃ s ∈ rs, s.name = q.name
    · obtain ⟨s, hs, hName⟩ := hLater
      obtain ⟨p, hp, hSame⟩ := ih hs
      exact ⟨p, isLast_cons_iff.mpr (.inl hp), hSame.trans hName⟩
    · obtain rfl | hq := List.mem_cons.mp h
      · exact ⟨q, isLast_cons_iff.mpr (.inr ⟨rfl, fun s hs hName => hLater ⟨s, hs, hName⟩⟩), rfl⟩
      · exact absurd ⟨q, hq, rfl⟩ hLater

/-- Which entries are last depends on the names only. -/
theorem isLast_map_iff {f : Param → Param} (hName : ∀ q, (f q).name = q.name) :
    IsLast (ps.map f) p ↔ ∃ q, IsLast ps q ∧ f q = p := by
  induction ps with
  | nil => simp [IsLast]
  | cons r rs ih =>
    simp only [List.map_cons, isLast_cons_iff, ih, List.forall_mem_map, hName]
    constructor
    · rintro (⟨q, hq, rfl⟩ | ⟨rfl, hNone⟩)
      · exact ⟨q, .inl hq, rfl⟩
      · exact ⟨r, .inr ⟨rfl, by simpa only [hName] using hNone⟩, rfl⟩
    · rintro ⟨q, hq | ⟨rfl, hNone⟩, rfl⟩
      · exact .inl ⟨q, hq, rfl⟩
      · exact .inr ⟨rfl, by simpa only [hName] using hNone⟩

theorem mem_put_iff (h : ps.Pairwise (·.name < ·.name)) :
    q ∈ put p ps ↔ q = p ∨ q ∈ ps ∧ q.name ≠ p.name := by
  induction ps with
  | nil => simp [put]
  | cons r rs ih =>
    obtain ⟨hFirst, hRest⟩ := List.pairwise_cons.mp h
    rw [put]
    split
    · rename_i hBelow
      have hDiffer : r.name ≠ p.name := fun hSame => String.lt_irrefl _ (hSame ▸ hBelow)
      rw [List.mem_cons, ih hRest, List.mem_cons]
      grind
    · split
      · rename_i hSame
        have hLater : ∀ q ∈ rs, q.name ≠ p.name := by
          intro q hq hName
          exact String.lt_irrefl _ (hName ▸ hSame ▸ hFirst q hq)
        rw [List.mem_cons, List.mem_cons]
        grind
      · rename_i hNotBelow hDiffer
        have hAbove : p.name < r.name := Std.lt_of_le_of_ne (String.not_lt.mp hNotBelow) (Ne.symm hDiffer)
        have hLater : ∀ q ∈ rs, q.name ≠ p.name := by
          intro q hq hName
          exact String.lt_irrefl _ (hName ▸ String.lt_trans hAbove (hFirst q hq))
        rw [List.mem_cons, List.mem_cons]
        grind

/-- Entered one by one, an entry stays until the next of its name. -/
theorem mem_foldl_put_iff (h : acc.Pairwise (·.name < ·.name)) :
    p ∈ ps.foldl (fun entries q => put q entries) acc ↔
      IsLast ps p ∨ p ∈ acc ∧ ∀ q ∈ ps, q.name ≠ p.name := by
  induction ps generalizing acc with
  | nil => simp [IsLast]
  | cons q ps ih =>
    rw [List.foldl_cons, ih (pairwise_put h), mem_put_iff h, isLast_cons_iff, List.forall_mem_cons]
    grind

theorem mem_byName_iff : p ∈ params.byName.toList ↔ IsLast params.toList p := by
  rw [byName, mem_foldl_put_iff .nil]
  simp

theorem mem_names_byName_iff {name : String} : name ∈ params.byName.names ↔ name ∈ params.names := by
  simp only [names, List.mem_map, mem_byName_iff]
  constructor
  · rintro ⟨p, hp, rfl⟩
    exact ⟨p, hp.mem, rfl⟩
  · rintro ⟨q, hq, rfl⟩
    exact exists_isLast hq

end ByName

section Entries

/-- An entry `name:value`. Its name is what stands before the first colon, without blanks around, and is not
empty; what stands behind it, without blanks around, is a number. -/
def Denotes (entry : List Char) (p : Param) : Prop :=
  ∃ name value, entry = name ++ ':' :: value ∧ ':' ∉ name ∧ trim name ≠ [] ∧
    p.name = String.ofList (trim name) ∧ Decimal.read? (trim value) = some p.value

theorem cut_at_colon {name : List Char} (h : ':' ∉ name) (value : List Char) :
    (name ++ ':' :: value).takeWhile (· != ':') = name ∧
      (name ++ ':' :: value).dropWhile (· != ':') = ':' :: value := by
  have hName : ∀ c ∈ name, (c != ':') = true := by
    intro c hc
    simpa using fun hColon : c = ':' => h (hColon ▸ hc)
  rw [List.takeWhile_append_of_pos hName, List.dropWhile_append_of_pos hName]
  simp

theorem readEntry_eq_some_iff : readEntry entry = some p ↔ Denotes entry p := by
  constructor
  · intro h
    have hSplit := entry.takeWhile_append_dropWhile (p := (· != ':'))
    have hHead := List.head?_dropWhile_not (· != ':') entry
    unfold readEntry at h
    split at h
    · cases h
    · rename_i c value hRest
      rw [hRest] at hSplit hHead
      have hColon : c = ':' := by simpa using hHead
      cases hColon
      dsimp only at h
      split at h
      · cases h
      · rename_i hName
        obtain ⟨v, hValue, rfl⟩ := Option.map_eq_some_iff.mp h
        refine ⟨_, value, hSplit.symm, fun hMem => ?_, hName, rfl, hValue⟩
        simpa using List.mem_takeWhile_imp hMem
  · rintro ⟨name, value, rfl, hColon, hName, hParam, hValue⟩
    obtain ⟨hTake, hDrop⟩ := cut_at_colon hColon value
    rw [readEntry, hTake, hDrop]
    dsimp only
    rw [if_neg hName, hValue, Option.map_some, ← hParam]

theorem entryOf_eq_ok_iff : entryOf entry = .ok p ↔ Denotes entry p := by
  rw [← readEntry_eq_some_iff, entryOf]
  cases readEntry entry <;> simp

theorem entryOf_eq_error_iff :
    entryOf entry = .error e ↔ (∀ p, ¬Denotes entry p) ∧ e = .invalidFormat (String.ofList entry) := by
  simp only [← readEntry_eq_some_iff, entryOf]
  cases readEntry entry <;> simp [eq_comm]

end Entries

section Texts

theorem ofString_blank (h : Blank s.toList) : ofString s = .ok ⟨[]⟩ := by
  rw [ofString, if_pos (trim_eq_nil_iff.mpr h)]

theorem ofString_not_blank (h : ¬Blank s.toList) : ofString s =
    (do return (Params.mk (← (s.toList.splitOn ',').mapM entryOf)).byName) := by
  rw [ofString, if_neg (mt trim_eq_nil_iff.mp h)]

theorem ofString_eq_ok_iff (h : ¬Blank s.toList) : ofString s = .ok params ↔
    ∃ entries, List.Forall₂ Denotes (s.toList.splitOn ',') entries ∧ (Params.mk entries).byName = params := by
  rw [ofString_not_blank h, bind_eq_ok_iff]
  simp only [mapM_eq_ok_iff_forall₂, entryOf_eq_ok_iff, pure, Except.pure, Except.ok.injEq]

theorem exists_ofString_iff : (∃ params, ofString s = .ok params) ↔
    Blank s.toList ∨ ∀ entry ∈ s.toList.splitOn ',', ∃ p, Denotes entry p := by
  by_cases h : Blank s.toList
  · exact ⟨fun _ => .inl h, fun _ => ⟨_, ofString_blank h⟩⟩
  · simp only [← entryOf_eq_ok_iff, ← exists_mapM_eq_ok_iff, h, false_or]
    constructor
    · rintro ⟨params, hParams⟩
      rw [ofString_not_blank h] at hParams
      obtain ⟨entries, hEntries, _⟩ := bind_eq_ok_iff.mp hParams
      exact ⟨entries, hEntries⟩
    · rintro ⟨entries, hEntries⟩
      rw [ofString_not_blank h, hEntries]
      exact ⟨_, rfl⟩

theorem ofString_eq_error_iff : ofString s = .error e ↔ ¬Blank s.toList ∧
    ∃ before entry after, s.toList.splitOn ',' = before ++ entry :: after ∧
      (∀ b ∈ before, ∃ p, Denotes b p) ∧ (∀ p, ¬Denotes entry p) ∧ e = .invalidFormat (String.ofList entry) := by
  by_cases h : Blank s.toList
  · simp [ofString_blank h, h]
  · have hEntries : (s.toList.splitOn ',').mapM entryOf = .error e ↔
        ∃ before entry after, s.toList.splitOn ',' = before ++ entry :: after ∧
          (∀ b ∈ before, ∃ p, Denotes b p) ∧ (∀ p, ¬Denotes entry p) ∧
          e = .invalidFormat (String.ofList entry) := by
      simp only [mapM_eq_error_iff, entryOf_eq_ok_iff, entryOf_eq_error_iff]
    rw [and_iff_right h, ← hEntries, ofString_not_blank h]
    cases (s.toList.splitOn ',').mapM entryOf with
    | ok entries => exact ⟨fun hError => (by cases hError), fun hError => (by cases hError)⟩
    | error e' => simp [bind, Except.bind]

/-- A blank text is one entry, and without a colon. -/
theorem not_blank_of_denotes {entries : List Param} (h : List.Forall₂ Denotes (s.toList.splitOn ',') entries) :
    ¬Blank s.toList := by
  intro hBlank
  rw [List.splitOn_eq_singleton (hBlank.not_mem (by decide))] at h
  obtain ⟨p, _, hFirst, _⟩ := List.forall₂_cons_left_iff.mp h
  obtain ⟨name, value, hText, _⟩ := hFirst
  exact hBlank.not_mem (c := ':') (by decide) (by simp [hText])

end Texts

section Typed

/-- A name that can be entered: trimmed, not empty and without a separator in it. -/
structure Enterable (name : String) : Prop where
  trimmed : trim name.toList = name.toList
  nonempty : name.toList ≠ []
  comma : ',' ∉ name.toList
  colon : ':' ∉ name.toList

/-- A parameter typed as `name:value`, its value as it is written, with blanks around either part. -/
def Spells (entry : List Char) (p : Param) : Prop :=
  Enterable p.name ∧ ∃ before inner outer after, Blank before ∧ Blank inner ∧ Blank outer ∧ Blank after ∧
    entry = before ++ p.name.toList ++ inner ++ ':' :: (outer ++ p.value.toChars ++ after)

/-- The parameter as it reads back. -/
def readBack (p : Param) : Param := { p with value := p.value.plain }

theorem Spells.denotes (h : Spells entry p) : Denotes entry (readBack p) := by
  obtain ⟨hName, before, inner, outer, after, hBefore, hInner, hOuter, hAfter, rfl⟩ := h
  refine ⟨before ++ p.name.toList ++ inner, outer ++ p.value.toChars ++ after, rfl, ?_, ?_, ?_, ?_⟩
  · have hVisible : isBlank ':' = false := by decide
    simp only [List.mem_append, not_or]
    exact ⟨⟨hBefore.not_mem hVisible, hName.colon⟩, hInner.not_mem hVisible⟩
  · rw [trim_surrounded hBefore hInner, hName.trimmed]
    exact hName.nonempty
  · rw [trim_surrounded hBefore hInner, hName.trimmed, String.ofList_toList]
    rfl
  · rw [trim_surrounded hOuter hAfter, Decimal.trim_toChars, Decimal.read?_toChars]
    rfl

theorem Spells.comma_not_mem (h : Spells entry p) : ',' ∉ entry := by
  obtain ⟨hName, before, inner, outer, after, hBefore, hInner, hOuter, hAfter, rfl⟩ := h
  have hVisible : isBlank ',' = false := by decide
  have hValue : ',' ∉ p.value.toChars := fun hc => absurd (p.value.numeral_of_mem_toChars hc) (by decide)
  simp only [List.mem_append, List.mem_cons, not_or]
  exact ⟨⟨⟨hBefore.not_mem hVisible, hName.comma⟩, hInner.not_mem hVisible⟩, by decide,
    ⟨hOuter.not_mem hVisible, hValue⟩, hAfter.not_mem hVisible⟩

theorem ofString_intercalate {typed : Params} {texts : List (List Char)} (hSome : typed.toList ≠ [])
    (h : List.Forall₂ Spells texts typed.toList) :
    ofString (String.ofList ([','].intercalate texts)) = .ok (Params.mk (typed.toList.map readBack)).byName := by
  have hEach : List.Forall₂ (fun text p => ',' ∉ text ∧ Denotes text (readBack p)) texts typed.toList :=
    h.imp fun _ _ hSpelled => ⟨hSpelled.comma_not_mem, hSpelled.denotes⟩
  obtain ⟨hNoComma, hDenotes⟩ := (List.forall₂_and_left _ _).mp hEach
  have hTexts : texts ≠ [] := by
    rintro rfl
    exact hSome (List.forall₂_nil_left_iff.mp h)
  have hSplit := List.splitOn_intercalate ',' hNoComma hTexts
  rw [← List.forall₂_map_right_iff, ← hSplit, ← String.toList_ofList (l := [','].intercalate texts)] at hDenotes
  rw [ofString_eq_ok_iff (not_blank_of_denotes hDenotes)]
  exact ⟨_, hDenotes, rfl⟩

end Typed

/-- Strictly ascending, as the bytes of the names go. -/
def Ascending (params : Params) : Prop :=
  params.toList.Pairwise fun p q => bytes p.name < bytes q.name

theorem ascending_byName (params : Params) : params.byName.Ascending :=
  params.pairwise_byName.imp bytes_lt_of_lt

theorem mem_toList_of_ofString (h : ofString s = .ok params) : params.Ascending ∧ ∃ entries,
    (Blank s.toList ∧ entries = [] ∨ List.Forall₂ Denotes (s.toList.splitOn ',') entries) ∧
      ∀ p, p ∈ params.toList ↔ IsLast entries p := by
  by_cases hBlank : Blank s.toList
  · rw [ofString_blank hBlank] at h
    cases h
    exact ⟨.nil, [], .inl ⟨hBlank, rfl⟩, fun p => by simp [IsLast]⟩
  · obtain ⟨entries, hEntries, rfl⟩ := (ofString_eq_ok_iff hBlank).mp h
    exact ⟨ascending_byName _, entries, .inr hEntries, fun _ => mem_byName_iff⟩

theorem exists_ofString_typed {typed : Params} {texts : List (List Char)} (hSome : typed.toList ≠ [])
    (h : List.Forall₂ Spells texts typed.toList) :
    ∃ params, ofString (String.ofList ([','].intercalate texts)) = .ok params ∧ params.Ascending ∧
      (∀ name, name ∈ params.names ↔ name ∈ typed.names) ∧
      ∀ p ∈ params.toList, ∃ q, IsLast typed.toList q ∧ q.name = p.name ∧ p.value ≈ q.value ∧
        p.value.scale = q.value.scale := by
  refine ⟨_, ofString_intercalate hSome h, ascending_byName _, fun name => ?_, fun p hp => ?_⟩
  · have hNames : (Params.mk (typed.toList.map readBack)).names = typed.names := by
      simp [names, readBack, Function.comp_def]
    rw [mem_names_byName_iff, hNames]
  · have hLast := (isLast_map_iff (f := readBack) fun _ => rfl).mp (mem_byName_iff.mp hp)
    obtain ⟨q, hq, rfl⟩ := hLast
    exact ⟨q, hq, rfl, q.value.plain_equiv, q.value.scale_plain⟩

/-- A text is accepted if it is blank or every entry between its commas is a name, a colon and a number, and
the error shows the first entry that is not. What it reads as is ascending by name and holds the last entry of
every name. Typed parameters read back: their names, each with its last value at the same scale. -/
theorem ofString_reads_entries :
    (∀ s : String, (∃ params, ofString s = .ok params) ↔
      Blank s.toList ∨ ∀ entry ∈ s.toList.splitOn ',', ∃ p, Denotes entry p) ∧
    (∀ (s : String) (e : Error), ofString s = .error e ↔ ¬Blank s.toList ∧
      ∃ before entry after, s.toList.splitOn ',' = before ++ entry :: after ∧
        (∀ b ∈ before, ∃ p, Denotes b p) ∧ (∀ p, ¬Denotes entry p) ∧
        e = .invalidFormat (String.ofList entry)) ∧
    (∀ (s : String) (params : Params), ofString s = .ok params → params.Ascending ∧ ∃ entries,
      (Blank s.toList ∧ entries = [] ∨ List.Forall₂ Denotes (s.toList.splitOn ',') entries) ∧
        ∀ p, p ∈ params.toList ↔ IsLast entries p) ∧
    ∀ (typed : Params) (texts : List (List Char)), typed.toList ≠ [] →
      List.Forall₂ Spells texts typed.toList →
      ∃ params, ofString (String.ofList ([','].intercalate texts)) = .ok params ∧ params.Ascending ∧
        (∀ name, name ∈ params.names ↔ name ∈ typed.names) ∧
        ∀ p ∈ params.toList, ∃ q, IsLast typed.toList q ∧ q.name = p.name ∧ p.value ≈ q.value ∧
          p.value.scale = q.value.scale :=
  ⟨fun _ => exists_ofString_iff, fun _ _ => ofString_eq_error_iff, fun _ _ => mem_toList_of_ofString,
    fun _ _ => exists_ofString_typed⟩

/-- A repeated name, a zero under a minus sign, and blanks that are not ASCII. -/
def retyped : Params :=
  .ofPairs [("b", .scaled 150 2), ("a", (Decimal.scaled 0 1).negate), ("b", .scaled 2000 3)]

def retypedTexts : List (List Char) := ["\u3000b\t:1.50".toList, "a: -0.0".toList, "b :2.000\u2003".toList]

theorem spells_retyped : List.Forall₂ Spells retypedTexts retyped.toList := by
  have hA : Enterable "a" := ⟨by decide, by decide, by decide, by decide⟩
  have hB : Enterable "b" := ⟨by decide, by decide, by decide, by decide⟩
  refine .cons ⟨hB, ['\u3000'], ['\t'], [], [], ?_⟩ (.cons ⟨hA, [], [], [' '], [], ?_⟩
    (.cons ⟨hB, [], [' '], [], ['\u2003'], ?_⟩ .nil))
  · decide
  · decide
  · decide

/-- Three entries under two names read back as two. -/
theorem ofString_reads_entries_retyped :
    (∃ params, ofString "\u3000b\t:1.50,a: -0.0,b :2.000\u2003" = .ok params ∧ params.Ascending ∧
      (∀ name, name ∈ params.names ↔ name ∈ retyped.names) ∧
      ∀ p ∈ params.toList, ∃ q, IsLast retyped.toList q ∧ q.name = p.name ∧ p.value ≈ q.value ∧
        p.value.scale = q.value.scale) ∧
    (∃ entries, List.Forall₂ Denotes ("a:1,a:2".toList.splitOn ',') entries ∧
      ∀ p, p ∈ (ofPairs [("a", .two)]).toList ↔ IsLast entries p) ∧
    (∃ params, ofString "" = .ok params) ∧
    ∃ entry ∈ "a:1,b,c:x".toList.splitOn ',', ∀ p, ¬Denotes entry p := by
  obtain ⟨hAccepted, hRefused, hRead, hTyped⟩ := ofString_reads_entries
  refine ⟨?_, ?_, ?_, ?_⟩
  · exact hTyped retyped retypedTexts (by decide) spells_retyped
  · have hText : ofString "a:1,a:2" = .ok (ofPairs [("a", .two)]) := by decide +kernel
    obtain ⟨_, entries, ⟨hBlank, _⟩ | hEntries, hLast⟩ := hRead _ _ hText
    · exact absurd hBlank (by decide)
    · exact ⟨entries, hEntries, hLast⟩
  · exact (hAccepted "").mpr (.inl (by decide))
  · have hText : ofString "a:1,b,c:x" = .error (.invalidFormat "b") := by decide +kernel
    obtain ⟨_, before, entry, after, hSplit, _, hNone, _⟩ := (hRefused _ _).mp hText
    exact ⟨entry, hSplit ▸ List.mem_append_right before List.mem_cons_self, hNone⟩

end Params

end BondingCurve
