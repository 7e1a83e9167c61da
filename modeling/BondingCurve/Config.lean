import BondingCurve.Bond.Validation
import BondingCurve.Toml.Document

/-!
# Configuration

The settings file is TOML with one section:

    [validation]
    reject_duplicate_params = true
    require_uniform_reserves = true

Both settings and the section itself may be absent, and are off then; anything else in the file is
ignored.
-/

namespace BondingCurve

structure Config where
  validation : Policy
deriving DecidableEq

inductive ConfigError
  | notFound
  /-- The file cannot be read as text. -/
  | fileSystem
  | parsing
deriving DecidableEq

inductive ConfigSource
  | missing
  | directory
  | file (bytes : ByteArray)

namespace Config

def default : Config := ⟨.permissive⟩

/-- A setting, off when absent. -/
def flag? (entries : Toml.Entries) (key : String) : Option Bool :=
  match entries.get? key with
  | none => some false
  | some (.boolean b) => some b
  | some _ => none

def policyOf? (entries : Toml.Entries) : Option Policy := do
  return ⟨← flag? entries "reject_duplicate_params", ← flag? entries "require_uniform_reserves"⟩

/-- An array in place of the section lists its settings in order. -/
def policyOfItems? : List Toml.Item → Option Policy
  | [] => some .permissive
  | [.boolean reject] => some ⟨reject, false⟩
  | .boolean reject :: .boolean uniform :: _ => some ⟨reject, uniform⟩
  | _ => none

/-- The section. A date counts as a table without any known key. -/
def policyOfItem? : Toml.Item → Option Policy
  | .table _ entries | .inlineTable entries => policyOf? entries
  | .array items => policyOfItems? items
  | .dateTime => some .permissive
  | .boolean _ | .scalar | .tables _ => none

def ofEntries? (entries : Toml.Entries) : Option Config :=
  match entries.get? "validation" with
  | none => some .default
  | some item => (policyOfItem? item).map Config.mk

def ofString (s : String) : Except ConfigError Config :=
  match (Toml.ofString? s).bind ofEntries? with
  | some config => .ok config
  | none => .error .parsing

/-- Reads the settings file, which has to exist. -/
def load : ConfigSource → Except ConfigError Config
  | .missing => .error .notFound
  | .directory => .error .fileSystem
  | .file bytes =>
    match String.fromUTF8? bytes with
    | some s => ofString s
    | none => .error .fileSystem

/-- Reads the settings file if there is one. -/
def loadOrDefault (source : ConfigSource) : Except ConfigError Config :=
  match load source with
  | .error .notFound => .ok .default
  | result => result

end Config

end BondingCurve
