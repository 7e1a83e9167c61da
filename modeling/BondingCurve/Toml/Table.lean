/-!
# TOML tables

A document is a list of statements: a header opens a table, a double header adds a table to an
array of tables, and an entry gives one key of the open table its value. No key is given twice. A
table that a header opened cannot be opened again or be extended by dotted keys; one that only
dotted keys made is closed to headers.
-/

namespace BondingCurve.Toml

inductive Origin
  /-- On the way to a longer header. -/
  | path
  | header
  | dotted
deriving DecidableEq

inductive Item
  | boolean (b : Bool)
  | dateTime
  /-- A string or a number; no setting has one, so the content is not kept. -/
  | scalar
  | array (items : List Item)
  /-- A table written in one line, which nothing can extend. -/
  | inlineTable (entries : List (String × Item))
  | table (origin : Origin) (entries : List (String × Item))
  | tables (elements : List (List (String × Item)))

abbrev Entries := List (String × Item)

inductive Statement
  | header (path : List String) (key : String)
  | arrayHeader (path : List String) (key : String)
  | entry (path : List String) (key : String) (value : Item)

namespace Entries

def get? (entries : Entries) (key : String) : Option Item :=
  (entries.find? (·.1 == key)).map (·.2)

/-- Replaces the item under a key, or adds it at the end. -/
def set (entries : Entries) (key : String) (item : Item) : Entries :=
  match entries with
  | [] => [(key, item)]
  | (k, v) :: rest => if k = key then (k, item) :: rest else (k, v) :: set rest key item

/-- Changes the table at the end of a path, making the tables that are missing on the way. Dotted
paths stop at a table that a header opened. -/
def change (dotted : Bool) (f : Origin → Entries → Option Entries) (origin : Origin) :
    List String → Entries → Option Entries
  | [], entries => f origin entries
  | key :: path, entries =>
    match entries.get? key with
    | none => do
      let made := if dotted then .dotted else .path
      return entries.set key (.table made (← change dotted f made path []))
    | some (.table inner subs) =>
      if dotted ∧ inner = .header then none
      else do return entries.set key (.table inner (← change dotted f inner path subs))
    | some (.tables elements) => do
      let last ← change dotted f .header path (elements.getLast?.getD [])
      return entries.set key (.tables (elements.dropLast ++ [last]))
    | some _ => none

/-- Gives a key of the open table its value; keys behind a dotted path go into a dotted table. -/
def addEntry (path : List String) (key : String) (value : Item) (origin : Origin)
    (entries : Entries) : Option Entries :=
  change true (fun origin entries =>
    if (origin = .dotted ↔ path ≠ []) ∧ (entries.get? key).isNone then
      some (entries.set key value)
    else none) origin path entries

def openTable (key : String) (entries : Entries) : Option Entries :=
  match entries.get? key with
  | none => some (entries.set key (.table .header []))
  | some (.table .path subs) => some (entries.set key (.table .header subs))
  | some _ => none

def openElement (key : String) (entries : Entries) : Option Entries :=
  match entries.get? key with
  | none => some (entries.set key (.tables [[]]))
  | some (.tables elements) => some (entries.set key (.tables (elements ++ [[]])))
  | some _ => none

/-- Carries out the statements in order; `opened` is the path of the open table. -/
def run (opened : List String) (entries : Entries) : List Statement → Option Entries
  | [] => some entries
  | .header path key :: rest => do
    run (path ++ [key]) (← change false (fun _ => openTable key) .header path entries) rest
  | .arrayHeader path key :: rest => do
    run (path ++ [key]) (← change false (fun _ => openElement key) .header path entries) rest
  | .entry path key value :: rest => do
    run opened (← change false (addEntry path key value) .header opened entries) rest

def ofStatements? (statements : List Statement) : Option Entries := run [] [] statements

end Entries

end BondingCurve.Toml
