import BondingCurve.Proofs.Json.Number
import BondingCurve.Proofs.Json.Text

/-!
# JSON read back

Compact text leaves no choice to the reader: the first character of a value says what kind it is, and
what follows a value ends it. Two steps of fuel for each character are enough, since every level of
nesting writes its brackets.
-/

namespace BondingCurve.Json

variable {fuel : Nat} {c : Char} {cs cs' after rest : List Char} {item value : Json} {items : List Json}
  {name : Option String} {members : List (Option String × Json)}

theorem skipBlanks_cons (h : isBlank c = false) : skipBlanks (c :: cs) = c :: cs := by
  rw [skipBlanks, List.dropWhile_cons_of_neg (by simp [h])]

section Steps

theorem readValue_text :
    readValue (fuel + 1) ('"' :: cs) = (readText cs).map fun p => (textOf p.1, p.2) := rfl

theorem readValue_array (hBlank : isBlank c = false) (hClose : c ≠ ']') :
    readValue (fuel + 1) ('[' :: c :: cs) = (readItems fuel (c :: cs)).map fun p => (array p.1, p.2) := by
  rw [readValue.eq_2, skipBlanks_cons (by rfl)]
  simp only [skipBlanks_cons hBlank]
  split
  · rename_i hBracket
    cases hBracket
    exact absurd rfl hClose
  · rfl

theorem readValue_object :
    readValue (fuel + 1) ('{' :: '"' :: cs) =
      (readMembers fuel ('"' :: cs)).map fun p => (objectOf p.1, p.2) := rfl

/-- A sign or a digit opens no other value, and closes none. -/
theorem not_mem_of_number (h : c = '-' ∨ c.isDigit = true) :
    c ∉ [' ', '\n', '\t', '\r', '"', '[', ']', '{', 'n', 't', 'f'] := by
  have hOther : ([' ', '\n', '\t', '\r', '"', '[', ']', '{', 'n', 't', 'f'].all fun d =>
      d != '-' && !d.isDigit) = true := rfl
  intro hc
  have hApart := List.all_eq_true.mp hOther c hc
  rcases h with rfl | hDigit <;> simp_all

theorem isBlank_of_number (h : c = '-' ∨ c.isDigit = true) : isBlank c = false := by
  have hOther := not_mem_of_number h
  simp_all [isBlank]

theorem readValue_number (h : c = '-' ∨ c.isDigit = true) :
    readValue (fuel + 1) (c :: cs) = (readNumber (c :: cs)).map fun p => (number p.1, p.2) := by
  have hOther := not_mem_of_number h
  rw [readValue.eq_2, skipBlanks_cons (isBlank_of_number h)]
  split
  all_goals simp_all

theorem readItems_last (h : readValue fuel cs = some (item, ']' :: rest)) :
    readItems (fuel + 1) cs = some ([item], rest) := by
  rw [readItems.eq_2, h]
  rfl

theorem readItems_more (h : readValue fuel cs = some (item, ',' :: cs'))
    (hRest : readItems fuel cs' = some (items, rest)) :
    readItems (fuel + 1) cs = some (item :: items, rest) := by
  rw [readItems.eq_2, h]
  change (readItems fuel cs').bind (fun p => some (item :: p.1, p.2)) = _
  rw [hRest, Option.bind_some]

theorem readMembers_last (hName : readText cs = some (name, ':' :: cs'))
    (h : readValue fuel cs' = some (value, '}' :: rest)) :
    readMembers (fuel + 1) ('"' :: cs) = some ([(name, value)], rest) := by
  change ((readText cs).bind _) = _
  rw [hName]
  change ((readValue fuel cs').bind _) = _
  rw [h]
  rfl

theorem readMembers_more (hName : readText cs = some (name, ':' :: cs'))
    (h : readValue fuel cs' = some (value, ',' :: after))
    (hRest : readMembers fuel after = some (members, rest)) :
    readMembers (fuel + 1) ('"' :: cs) = some ((name, value) :: members, rest) := by
  change ((readText cs).bind _) = _
  rw [hName]
  change ((readValue fuel cs').bind _) = _
  rw [h]
  change ((readMembers fuel after).bind _) = _
  rw [hRest]
  rfl

end Steps

theorem objectOf_named (members : List (String × Json)) :
    objectOf (members.map fun m => (some m.1, m.2)) = object members := by
  have hNamed : (members.map fun m => (some m.1, m.2)).mapM
      (fun m : Option String × Json => m.1.map (·, m.2)) = some members := by
    induction members with
    | nil => rfl
    | cons m members ih =>
      rw [List.map_cons, List.mapM_cons, ih]
      rfl
  rw [objectOf, hNamed]

theorem head_chars (j : Json) : ∃ c cs, j.chars = c :: cs ∧ isBlank c = false ∧ c ≠ ']' := by
  cases j with
  | null => exact ⟨_, _, rfl, by decide, by decide⟩
  | bool b => cases b <;> exact ⟨_, _, rfl, by decide, by decide⟩
  | number n =>
    obtain ⟨c, cs, hChars, hFirst⟩ := n.head_chars
    have hOther := not_mem_of_number hFirst
    exact ⟨c, cs, hChars, isBlank_of_number hFirst, by simp_all⟩
  | text s => exact ⟨_, _, rfl, by decide, by decide⟩
  | array items => cases items <;> exact ⟨_, _, rfl, by decide, by decide⟩
  | object members => cases members <;> exact ⟨_, _, rfl, by decide, by decide⟩
  | unreadable => exact ⟨_, _, rfl, by decide, by decide⟩

theorem stops_cons (h : (c.isDigit = false ∧ c ≠ '.' ∧ c ≠ 'e' ∧ c ≠ 'E')) : Stops (c :: cs) := by
  rintro _ ⟨⟩
  exact h

theorem stops_tailItems (items : List Json) : Stops (tailItems items ++ rest) := by
  cases items <;> exact stops_cons (by decide)

theorem stops_tailMembers (members : List (String × Json)) : Stops (tailMembers members ++ rest) := by
  cases members <;> exact stops_cons (by decide)

/-- What is written can be read with this much fuel, if it is short enough. -/
structure ReadsBack (fuel : Nat) : Prop where
  value : ∀ (j : Json) (rest : List Char), Stops rest → 2 * j.chars.length ≤ fuel →
    readValue fuel (j.chars ++ rest) = some (j, rest)
  items : ∀ (item : Json) (items : List Json) (rest : List Char),
    2 * (item.chars.length + (tailItems items).length) ≤ fuel →
    readItems fuel (item.chars ++ (tailItems items ++ rest)) = some (item :: items, rest)
  members : ∀ (name : String) (value : Json) (members : List (String × Json)) (rest : List Char),
    2 * (value.chars.length + (tailMembers members).length) ≤ fuel →
    readMembers fuel (textChars name ++ ':' :: (value.chars ++ (tailMembers members ++ rest))) =
      some ((some name, value) :: members.map (fun m => (some m.1, m.2)), rest)

theorem length_chars_pos (j : Json) : 0 < j.chars.length := by
  obtain ⟨c, cs, hChars, _⟩ := head_chars j
  rw [hChars]
  exact Nat.succ_pos _

theorem ReadsBack.zero : ReadsBack 0 := by
  have hLong := length_chars_pos
  constructor
  · intro j rest _ h
    have := hLong j
    omega
  · intro item items rest h
    have := hLong item
    omega
  · intro name value members rest h
    have := hLong value
    omega

theorem textChars_append (s : String) (cs : List Char) :
    textChars s ++ cs = '"' :: (s.toList.flatMap escapeChar ++ '"' :: cs) := by
  simp [textChars]

theorem ReadsBack.readValue_succ (h : ReadsBack fuel) (j : Json) (rest : List Char) (hRest : Stops rest)
    (hFuel : 2 * j.chars.length ≤ fuel + 1) : readValue (fuel + 1) (j.chars ++ rest) = some (j, rest) := by
  cases j with
  | null => rfl
  | bool b => cases b <;> rfl
  | number n =>
    obtain ⟨c, cs, hChars, hFirst⟩ := n.head_chars
    have hRead := readNumber_chars n hRest
    rw [chars.eq_4]
    rw [hChars, List.cons_append] at hRead ⊢
    rw [readValue_number hFirst, hRead, Option.map_some]
  | text s =>
    rw [chars.eq_5, textChars_append, readValue_text, readText_escaped]
    rfl
  | array items =>
    cases items with
    | nil => rfl
    | cons item items =>
      obtain ⟨c, cs, hChars, hBlank, hClose⟩ := head_chars item
      simp only [chars.eq_7, List.cons_append, List.append_assoc, List.length_cons, List.length_append]
        at hFuel ⊢
      have hItems := h.items item items rest (by omega)
      rw [hChars, List.cons_append] at hItems ⊢
      rw [readValue_array hBlank hClose, hItems, Option.map_some]
  | object members =>
    rcases members with _ | ⟨⟨name, value⟩, members⟩
    · rfl
    · simp only [chars.eq_9, List.cons_append, List.append_assoc, List.length_cons, List.length_append]
        at hFuel ⊢
      have hMembers := h.members name value members rest (by omega)
      rw [textChars_append] at hMembers ⊢
      rw [readValue_object, hMembers]
      exact congrArg (fun j => some (j, rest)) (objectOf_named ((name, value) :: members))
  | unreadable =>
    simp only [chars.eq_10, List.cons_append, List.nil_append]
    rw [readValue_text, readText_unpaired]
    rfl

theorem ReadsBack.readItems_succ (h : ReadsBack fuel) (item : Json) (items : List Json) (rest : List Char)
    (hFuel : 2 * (item.chars.length + (tailItems items).length) ≤ fuel + 1) :
    readItems (fuel + 1) (item.chars ++ (tailItems items ++ rest)) = some (item :: items, rest) := by
  have hItem := h.value item (tailItems items ++ rest) (stops_tailItems items)
  cases items with
  | nil =>
    rw [tailItems.eq_1] at hFuel
    exact readItems_last (hItem (by simp at hFuel; omega))
  | cons next items =>
    simp only [tailItems.eq_2, List.cons_append, List.append_assoc, List.length_cons, List.length_append]
      at hFuel hItem ⊢
    exact readItems_more (hItem (by omega)) (h.items next items rest (by omega))

theorem ReadsBack.readMembers_succ (h : ReadsBack fuel) (name : String) (value : Json)
    (members : List (String × Json)) (rest : List Char)
    (hFuel : 2 * (value.chars.length + (tailMembers members).length) ≤ fuel + 1) :
    readMembers (fuel + 1) (textChars name ++ ':' :: (value.chars ++ (tailMembers members ++ rest))) =
      some ((some name, value) :: members.map (fun m => (some m.1, m.2)), rest) := by
  have hValue := h.value value (tailMembers members ++ rest) (stops_tailMembers members)
  rw [textChars_append]
  rcases members with _ | ⟨⟨next, value'⟩, members⟩
  · rw [tailMembers.eq_1] at hFuel
    exact readMembers_last (readText_escaped name _) (hValue (by simp at hFuel; omega))
  · simp only [tailMembers.eq_2, List.cons_append, List.append_assoc, List.length_cons, List.length_append]
      at hFuel hValue ⊢
    have hMembers := h.members next value' members rest (by omega)
    rw [textChars_append] at hMembers hValue ⊢
    exact readMembers_more (readText_escaped name _) (hValue (by omega)) hMembers

theorem readsBack (fuel : Nat) : ReadsBack fuel := by
  induction fuel with
  | zero => exact .zero
  | succ fuel ih => exact ⟨ih.readValue_succ, ih.readItems_succ, ih.readMembers_succ⟩

/-- Printing and reading is the identity on JSON values. -/
theorem ofString?_render (j : Json) : ofString? j.render = some j := by
  have hRead := (readsBack (2 * j.chars.length + 1)).value j [] stops_nil (Nat.le_succ _)
  rw [List.append_nil] at hRead
  rw [ofString?, render, String.toList_ofList, ofChars?, hRead]
  rfl

end BondingCurve.Json
