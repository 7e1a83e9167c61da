import BondingCurve.Bond.Encoding
import BondingCurve.Proofs.Coins
import BondingCurve.Proofs.Decimal.Text
import BondingCurve.Proofs.Json.RoundTrip
import Mathlib.Data.List.Forall2

/-!
# Bonds read back from their text

Each reader undoes its writer. Nothing is lost on the way but the sign of a zero, which is no part of a
bond's value, so a bond that was read from any text comes back when it is written.
-/

namespace BondingCurve

open Decimal (plain)

section Lists

variable {α β : Type}

theorem mapM_eq_some_iff {f : α → Option β} {xs : List α} {ys : List β} :
    xs.mapM f = some ys ↔ List.Forall₂ (fun x y => f x = some y) xs ys := by
  induction xs generalizing ys with
  | nil =>
    rw [List.mapM_nil, List.forall₂_nil_left_iff]
    exact ⟨fun h => (Option.some_inj.mp h).symm, fun h => h ▸ rfl⟩
  | cons x xs ih =>
    simp only [List.mapM_cons, Option.bind_eq_bind, Option.bind_eq_some_iff, ih, List.forall₂_cons_left_iff]
    constructor
    · rintro ⟨y, hy, ys', hys, hAll⟩
      cases hAll
      exact ⟨y, ys', hy, hys, rfl⟩
    · rintro ⟨y, ys', hy, hys, rfl⟩
      exact ⟨y, hy, ys', hys, rfl⟩

end Lists

namespace Json

variable {α β : Type} {name : String} {value : Json}

theorem filter_eq_singleton {members : List (String × Json)} (hNodup : (members.map Prod.fst).Nodup)
    (h : (name, value) ∈ members) : members.filter (·.1 == name) = [(name, value)] := by
  induction members with
  | nil => cases h
  | cons m members ih =>
    rw [List.map_cons, List.nodup_cons] at hNodup
    obtain ⟨hNew, hRest⟩ := hNodup
    obtain rfl | hLater := List.mem_cons.mp h
    · rw [List.filter_cons_of_pos (by simp), List.filter_eq_nil_iff.mpr]
      intro other hOther hSame
      exact hNew (List.mem_map.mpr ⟨other, hOther, by simpa using hSame⟩)
    · rw [List.filter_cons_of_neg, ih hRest hLater]
      intro hSame
      exact hNew (List.mem_map.mpr ⟨_, hLater, by simpa using Eq.symm (by simpa using hSame)⟩)

/-- Members with the names of the record, each once, are its fields. -/
theorem fields?_zip {names : List String} (hNames : names.Nodup) (values : List Json)
    (hLength : names.length = values.length) : (object (names.zip values)).fields? names = some values := by
  rw [fields?, mapM_eq_some_iff, List.forall₂_iff_zip]
  refine ⟨hLength, fun {name value} hMem => ?_⟩
  have hNodup : ((names.zip values).map Prod.fst).Nodup := by
    rwa [List.map_fst_zip hLength.le]
  rw [filter_eq_singleton hNodup hMem]

theorem toList?_map {write : α → Json} {read : Json → Option β} {g : α → β}
    (h : ∀ x, read (write x) = some (g x)) (xs : List α) :
    (array (xs.map write)).toList? read = some (xs.map g) := by
  rw [toList?, mapM_eq_some_iff, List.forall₂_map_left_iff, List.forall₂_map_right_iff]
  exact List.forall₂_same.mpr fun x _ => h x

@[simp]
theorem toText?_text (s : String) : (text s).toText? = some s := rfl

@[simp]
theorem toBool?_bool (b : Bool) : (bool b).toBool? = some b := rfl

@[simp]
theorem toDecimal?_ofDecimal (x : Decimal) : (ofDecimal x).toDecimal? = some x.plain :=
  Decimal.ofString?_toString x

@[simp]
theorem toWord?_ofNat (n : UInt64) : (ofNat n.toNat).toWord? = some n := by
  change Number.toWord? _ = _
  rw [Number.toWord?, if_pos ⟨⟨rfl, rfl⟩, rfl, n.toNat_lt⟩, UInt64.ofNat_toNat]

end Json

def Coin.mapAmount (f : Decimal → Decimal) (c : Coin) : Coin := { c with amount := f c.amount }

def Param.mapValue (f : Decimal → Decimal) (p : Param) : Param := { p with value := f p.value }

def Params.mapValues (f : Decimal → Decimal) (params : Params) : Params := ⟨params.toList.map (.mapValue f)⟩

section Unchanged

variable {f : Decimal → Decimal}

theorem Params.mapValues_eq_self {params : Params} (h : ∀ p ∈ params.toList, f p.value = p.value) :
    params.mapValues f = params := by
  have hList : params.toList.map (.mapValue f) = params.toList := by
    conv_rhs => rw [← List.map_id params.toList]
    apply List.map_congr_left
    intro p hp
    rw [Param.mapValue, h p hp, id]
  rw [mapValues, hList]

theorem Coins.mapAmounts_eq_self {coins : Coins} (h : ∀ c ∈ coins.toList, f c.amount = c.amount) :
    coins.mapAmounts f = coins := by
  apply eq_of_toList_eq
  conv_rhs => rw [← List.map_id coins.toList]
  apply List.map_congr_left
  intro c hc
  rw [h c hc, id]

end Unchanged

/-- Every decimal of a bond changed in the same way. -/
def Bond.mapDecimals (f : Decimal → Decimal) (bond : Bond) : Bond :=
  { bond with
    params := bond.params.mapValues f
    txFee := f bond.txFee
    exitFee := f bond.exitFee
    maxSupply := bond.maxSupply.mapAmount f
    orderLimits := bond.orderLimits.mapAmounts f
    sanityRate := f bond.sanityRate
    sanityMargin := f bond.sanityMargin
    supply := bond.supply.mapAmount f }

namespace Bond

def decimals (bond : Bond) : List Decimal :=
  bond.params.toList.map (·.value) ++ bond.orderLimits.toList.map (·.amount) ++
    [bond.txFee, bond.exitFee, bond.maxSupply.amount, bond.sanityRate, bond.sanityMargin, bond.supply.amount]

/-- The same bond, each decimal of it as large as before and written with as many digits. -/
def Same (bond read : Bond) : Prop :=
  ∃ f : Decimal → Decimal, (∀ x, f x ≈ x ∧ (f x).scale = x.scale) ∧ read = bond.mapDecimals f

theorem mapDecimals_eq_self {bond : Bond} {f : Decimal → Decimal} (h : ∀ x ∈ bond.decimals, f x = x) :
    bond.mapDecimals f = bond := by
  simp only [decimals, List.mem_append, List.mem_map, List.mem_cons, List.not_mem_nil, or_false] at h
  have hParams : bond.params.mapValues f = bond.params :=
    Params.mapValues_eq_self fun p hp => h p.value (.inl (.inl ⟨p, hp, rfl⟩))
  have hLimits : bond.orderLimits.mapAmounts f = bond.orderLimits :=
    Coins.mapAmounts_eq_self fun c hc => h c.amount (.inl (.inr ⟨c, hc, rfl⟩))
  have hFields := fun x hx => h x (.inr hx)
  simp only [forall_eq_or_imp, forall_eq] at hFields
  obtain ⟨hTx, hExit, hMax, hRate, hMargin, hSupply⟩ := hFields
  rw [mapDecimals, hParams, hLimits, hTx, hExit, hRate, hMargin, Coin.mapAmount, Coin.mapAmount, hMax, hSupply]

theorem mapDecimals_mapDecimals (bond : Bond) (f g : Decimal → Decimal) :
    (bond.mapDecimals f).mapDecimals g = bond.mapDecimals (g ∘ f) := by
  simp [mapDecimals, Params.mapValues, Coins.mapAmounts, Coin.mapAmount, Function.comp_def, Param.mapValue]

theorem same_plain (bond : Bond) : bond.Same (bond.mapDecimals plain) :=
  ⟨plain, fun x => ⟨x.plain_equiv, x.scale_plain⟩, rfl⟩

end Bond

section Readers

@[simp]
theorem Coin.ofJson?_toJson (c : Coin) : ofJson? c.toJson = some (c.mapAmount plain) := by
  have hNames : ["denom", "amount"].Nodup := by decide
  have hFields : c.toJson.fields? ["denom", "amount"] = some [.text c.denom, .ofDecimal c.amount] :=
    Json.fields?_zip hNames [.text c.denom, .ofDecimal c.amount] rfl
  rw [ofJson?, hFields]
  simp only [Option.bind_eq_bind, Option.bind_some, Json.toText?_text, Json.toDecimal?_ofDecimal]
  rfl

@[simp]
theorem Coins.ofJson?_toJson (coins : Coins) : ofJson? coins.toJson = some (coins.mapAmounts plain) := by
  rw [ofJson?, toJson, Json.toList?_map Coin.ofJson?_toJson, Option.bind_eq_bind, Option.bind_some]
  have hAscending : (coins.toList.map (Coin.mapAmount plain)).Pairwise (·.denom < ·.denom) :=
    (coins.mapAmounts plain).ascending
  rw [ofList_of_pairwise hAscending]
  rfl

@[simp]
theorem Param.ofJson?_toJson (p : Param) : ofJson? p.toJson = some (p.mapValue plain) := by
  have hNames : ["param", "value"].Nodup := by decide
  have hFields : p.toJson.fields? ["param", "value"] = some [.text p.name, .ofDecimal p.value] :=
    Json.fields?_zip hNames [.text p.name, .ofDecimal p.value] rfl
  rw [ofJson?, hFields]
  simp only [Option.bind_eq_bind, Option.bind_some, Json.toText?_text, Json.toDecimal?_ofDecimal]
  rfl

@[simp]
theorem Params.ofJson?_toJson (params : Params) : ofJson? params.toJson = some (params.mapValues plain) := by
  rw [ofJson?, toJson, Json.toList?_map Param.ofJson?_toJson]
  rfl

@[simp]
theorem Family.ofJson?_toJson (f : Family) : ofJson? f.toJson = some f := ofTag?_tag f

theorem byteOf?_ofNat (b : UInt8) : byteOf? (.ofNat b.toNat) = some b := by
  have hByte := b.toNat_lt
  have hWord : (UInt64.ofNat b.toNat).toNat = b.toNat := UInt64.toNat_ofNat_of_lt' (by
    change _ < 2 ^ 64
    omega)
  have hRead := Json.toWord?_ofNat (UInt64.ofNat b.toNat)
  rw [hWord] at hRead
  rw [byteOf?, hRead, Option.bind_eq_bind, Option.bind_some, hWord, if_pos hByte, UInt8.ofNat_toNat]
  rfl

@[simp]
theorem Address.ofJson?_toJson (a : Address) : ofJson? a.toJson = some a := by
  rw [ofJson?, toJson, Json.toList?_map byteOf?_ofNat, List.map_id', Option.bind_eq_bind, Option.bind_some,
    ofBytes?, dif_pos a.size_eq]

end Readers

namespace Bond

theorem ofFieldValues?_fieldValues (bond : Bond) :
    ofFieldValues? bond.fieldValues = some (bond.mapDecimals plain) := by
  have hSigners := Json.toList?_map Address.ofJson?_toJson bond.signers
  have hReserves := Json.toList?_map Json.toText?_text bond.reserves
  simp only [fieldValues, ofFieldValues?, hSigners, hReserves, Json.toText?_text, Json.toBool?_bool,
    Json.toDecimal?_ofDecimal, Json.toWord?_ofNat, Coin.ofJson?_toJson, Coins.ofJson?_toJson,
    Params.ofJson?_toJson, Family.ofJson?_toJson, Address.ofJson?_toJson, Option.bind_eq_bind, Option.bind_some]
  simp [mapDecimals]

theorem ofJson?_toJson (bond : Bond) : ofJson? bond.toJson = some (bond.mapDecimals plain) := by
  rw [ofJson?, toJson, Json.fields?_zip (by decide) _ rfl, Option.bind_eq_bind, Option.bind_some,
    ofFieldValues?_fieldValues]

theorem ofText?_toText (bond : Bond) : ofText? bond.toText = some (bond.mapDecimals plain) := by
  rw [ofText?, toText, Json.ofString?_render, Option.bind_eq_bind, Option.bind_some, ofJson?_toJson]

/-- A text as it is written once it has been read. -/
def rewriteText? (text : String) : Option String := (ofText? text).map toText

theorem rewriteText?_eq {text : String} {bond : Bond} (h : ofText? text = some bond) :
    rewriteText? text = some bond.toText := by
  rw [rewriteText?, h, Option.map_some]

/-- Reading undoes writing, to the digit of every decimal; only a zero under a minus sign comes back without it,
and then stays as it is. Nor does a bond that was read from a text change when the text is written anew, and what
is written of it then is final. -/
theorem text_round_trip (bond : Bond) :
    (∃ read, ofText? bond.toText = some read ∧ bond.Same read ∧ ofText? read.toText = some read) ∧
    ((∀ x ∈ bond.decimals, x.mantissa = 0 → x.negative = false) → ofText? bond.toText = some bond) ∧
    ∀ text, ofText? text = some bond →
      ∃ again, (rewriteText? text).bind ofText? = some again ∧ bond.Same again ∧
        (rewriteText? text).bind rewriteText? = some again.toText ∧
        rewriteText? again.toText = some again.toText := by
  have hRead : ∃ read, ofText? bond.toText = some read ∧ bond.Same read ∧ ofText? read.toText = some read := by
    refine ⟨_, bond.ofText?_toText, bond.same_plain, ?_⟩
    have hPlain : plain ∘ plain = plain := funext Decimal.plain_plain
    rw [ofText?_toText, mapDecimals_mapDecimals, hPlain]
  refine ⟨hRead, fun hSigns => ?_, fun text hText => ?_⟩
  · rw [ofText?_toText, mapDecimals_eq_self fun x hx => Decimal.plain_eq_self (hSigns x hx)]
  · obtain ⟨again, hAgain, hSame, hFixed⟩ := hRead
    refine ⟨again, ?_, hSame, ?_, rewriteText?_eq hFixed⟩
    · rw [rewriteText?_eq hText, Option.bind_some, hAgain]
    · rw [rewriteText?_eq hText, Option.bind_some, rewriteText?_eq hAgain]

end Bond

end BondingCurve
