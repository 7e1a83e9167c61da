import BondingCurve.Bond.Basic
import BondingCurve.Json.Parser
import BondingCurve.Json.Printer

/-!
# Bonds as JSON

Decimals are written as text, so that their scale survives, and words as numbers. A curve is
tagged by its family's name. Reading asks for every field and checks nothing beyond the form,
except that a coin set may not repeat a denomination. The values of a record may stand in an array
in the order of its fields; a curve's constants may do so only in text.
-/

namespace BondingCurve

def Coin.toJson (c : Coin) : Json :=
  .object [("denom", .text c.denom), ("amount", .ofDecimal c.amount)]

def Coin.ofJson? (j : Json) : Option Coin := do
  match ← j.fields? ["denom", "amount"] with
  | [denom, amount] => return ⟨← denom.toText?, ← amount.toDecimal?⟩
  | _ => none

def Coins.toJson (coins : Coins) : Json := .array (coins.toList.map Coin.toJson)

def Coins.ofJson? (j : Json) : Option Coins := do
  (Coins.ofList (← j.toList? Coin.ofJson?)).toOption

def Param.toJson (p : Param) : Json :=
  .object [("param", .text p.name), ("value", .ofDecimal p.value)]

def Param.ofJson? (j : Json) : Option Param := do
  match ← j.fields? ["param", "value"] with
  | [name, value] => return ⟨← name.toText?, ← value.toDecimal?⟩
  | _ => none

def Params.toJson (params : Params) : Json := .array (params.toList.map Param.toJson)

def Params.ofJson? (j : Json) : Option Params := do
  return ⟨← j.toList? Param.ofJson?⟩

instance : ToString Params := ⟨fun params => params.toJson.render⟩

def Family.toJson (f : Family) : Json := .text f.tag

/-- A family is its tag, or an object with its tag as only name and no content. -/
def Family.ofJson? : Json → Option Family
  | .text tag => ofTag? tag
  | .object [(tag, .null)] => ofTag? tag
  | _ => none

def Curve.toJson : Curve → Json
  | power m n c => .object [("Power",
      .object [("m", .ofDecimal m), ("n", .ofNat n.toNat), ("c", .ofDecimal c)])]
  | sigmoid a b c => .object [("Sigmoid",
      .object [("a", .ofDecimal a), ("b", .ofDecimal b), ("c", .ofDecimal c)])]
  | swapper => .text "Swapper"
  | augmented d0 p0 theta kappa => .object [("Augmented",
      .object [("d0", .ofDecimal d0), ("p0", .ofDecimal p0), ("theta", .ofDecimal theta),
        ("kappa", .ofDecimal kappa)])]

def Curve.ofContent? (tag : String) (content : Json) : Option Curve := do
  if tag = "Power" then
    match ← content.fields? ["m", "n", "c"] with
    | [m, n, c] => return power (← m.toDecimal?) (← n.toWord?) (← c.toDecimal?)
    | _ => none
  else if tag = "Sigmoid" then
    match ← content.fields? ["a", "b", "c"] with
    | [a, b, c] => return sigmoid (← a.toDecimal?) (← b.toDecimal?) (← c.toDecimal?)
    | _ => none
  else if tag = "Swapper" then
    match content with
    | .null => return swapper
    | _ => none
  else if tag = "Augmented" then
    match ← content.fields? ["d0", "p0", "theta", "kappa"] with
    | [d0, p0, theta, kappa] =>
      return augmented (← d0.toDecimal?) (← p0.toDecimal?) (← theta.toDecimal?)
        (← kappa.toDecimal?)
    | _ => none
  else none

def Curve.ofTagged? : Json → Option Curve
  | .text tag => if tag = "Swapper" then some swapper else none
  | .object [(tag, content)] => ofContent? tag content
  | _ => none

/-- A curve held as a value has its constants by name; a list of them is refused. -/
def Curve.ofJson? : Json → Option Curve
  | .object [(_, .array _)] => none
  | j => ofTagged? j

/-- A curve written as text may also list its constants in order. -/
def Curve.ofText? (s : String) : Option Curve := do ofTagged? (← Json.ofString? s)

def Address.toJson (a : Address) : Json := .array (a.bytes.map fun b => .ofNat b.toNat)

def byteOf? (j : Json) : Option UInt8 := do
  let n ← j.toWord?
  if n.toNat < 256 then return UInt8.ofNat n.toNat else none

def Address.ofJson? (j : Json) : Option Address := do
  Address.ofBytes? (← j.toList? byteOf?)

namespace Bond

def fieldNames : List String :=
  ["token", "name", "description", "creator", "signers", "function_type", "function_parameters",
    "reserve_tokens", "reserve_address", "tx_fee_percentage", "exit_fee_percentage", "fee_address",
    "max_supply", "order_quantity_limits", "sanity_rate", "sanity_margin_percentage",
    "allow_sells", "batch_blocks", "current_supply"]

def fieldValues (bond : Bond) : List Json :=
  [.text bond.token, .text bond.name, .text bond.description, bond.creator.toJson,
    .array (bond.signers.map Address.toJson), bond.family.toJson, bond.params.toJson,
    .array (bond.reserves.map Json.text), bond.reserveAddress.toJson, .ofDecimal bond.txFee,
    .ofDecimal bond.exitFee, bond.feeAddress.toJson, bond.maxSupply.toJson,
    bond.orderLimits.toJson, .ofDecimal bond.sanityRate, .ofDecimal bond.sanityMargin,
    .bool bond.allowSells, .ofNat bond.batchBlocks.toNat, bond.supply.toJson]

def toJson (bond : Bond) : Json := .object (fieldNames.zip bond.fieldValues)

def ofFieldValues? : List Json → Option Bond
  | [token, name, description, creator, signers, family, params, reserves, reserveAddress, txFee,
      exitFee, feeAddress, maxSupply, orderLimits, sanityRate, sanityMargin, allowSells,
      batchBlocks, supply] => do
    return {
      token := ← token.toText?
      name := ← name.toText?
      description := ← description.toText?
      creator := ← Address.ofJson? creator
      signers := ← signers.toList? Address.ofJson?
      family := ← Family.ofJson? family
      params := ← Params.ofJson? params
      reserves := ← reserves.toList? Json.toText?
      reserveAddress := ← Address.ofJson? reserveAddress
      txFee := ← txFee.toDecimal?
      exitFee := ← exitFee.toDecimal?
      feeAddress := ← Address.ofJson? feeAddress
      maxSupply := ← Coin.ofJson? maxSupply
      orderLimits := ← Coins.ofJson? orderLimits
      sanityRate := ← sanityRate.toDecimal?
      sanityMargin := ← sanityMargin.toDecimal?
      allowSells := ← allowSells.toBool?
      batchBlocks := ← batchBlocks.toWord?
      supply := ← Coin.ofJson? supply }
  | _ => none

def ofJson? (j : Json) : Option Bond := do ofFieldValues? (← j.fields? fieldNames)

def ofText? (s : String) : Option Bond := do ofJson? (← Json.ofString? s)

def toText (bond : Bond) : String := bond.toJson.render

end Bond

end BondingCurve
