import BondingCurve.Json.Value
import BondingCurve.Text.Hex

/-!
# Reading JSON

A recursive descent over the characters. Every step that does not consume one lowers the fuel, and
the fuel a text starts with is enough for any value it can hold. Nothing may follow the value but
blanks.
-/

namespace BondingCurve.Json

open Text (hexValue?)

def isBlank (c : Char) : Bool := c == ' ' || c == '\n' || c == '\t' || c == '\r'

def skipBlanks (cs : List Char) : List Char := cs.dropWhile isBlank

def shortEscaped? (e : Char) : Option Char :=
  if e = '"' then some '"'
  else if e = '\\' then some '\\'
  else if e = '/' then some '/'
  else if e = 'b' then some '\x08'
  else if e = 'f' then some '\x0c'
  else if e = 'n' then some '\n'
  else if e = 'r' then some '\r'
  else if e = 't' then some '\t'
  else none

def hexCode? (a b c d : Char) : Option Nat := do
  return 4096 * (← hexValue? a) + 256 * (← hexValue? b) + 16 * (← hexValue? c) + (← hexValue? d)

/-- The codes of a string up to its closing quote, and what follows. An escape gives a code of
sixteen bits, which may be half of a surrogate pair. -/
def readCodes : List Char → Option (List Nat × List Char)
  | [] => none
  | '"' :: cs => some ([], cs)
  | '\\' :: 'u' :: a :: b :: c :: d :: cs => do
    let code ← hexCode? a b c d
    let (codes, rest) ← readCodes cs
    return (code :: codes, rest)
  | '\\' :: e :: cs => do
    let c ← shortEscaped? e
    let (codes, rest) ← readCodes cs
    return (c.toNat :: codes, rest)
  | c :: cs =>
    if c.toNat < 0x20 then none
    else (readCodes cs).map fun (codes, rest) => (c.toNat :: codes, rest)

/-- Joins surrogate pairs; a half without its partner denotes nothing. -/
def joinPairs : List Nat → Option (List Char)
  | [] => some []
  | high :: low :: codes =>
    if 0xD800 ≤ high ∧ high < 0xDC00 ∧ 0xDC00 ≤ low ∧ low < 0xE000 then
      (joinPairs codes).map (Char.ofNat (0x10000 + 1024 * (high - 0xD800) + (low - 0xDC00)) :: ·)
    else if 0xD800 ≤ high ∧ high < 0xE000 then none
    else (joinPairs (low :: codes)).map (Char.ofNat high :: ·)
  | [code] => if 0xD800 ≤ code ∧ code < 0xE000 then none else some [Char.ofNat code]

def readText (cs : List Char) : Option (Option String × List Char) :=
  (readCodes cs).map fun (codes, rest) => ((joinPairs codes).map String.ofList, rest)

def textOf : Option String → Json
  | some s => text s
  | none => unreadable

/-- An object, unless one of its names denotes nothing. -/
def objectOf (members : List (Option String × Json)) : Json :=
  match members.mapM fun (name, value) => name.map (·, value) with
  | some members => object members
  | none => unreadable

def spanDigits (cs : List Char) : List Char × List Char :=
  (cs.takeWhile Char.isDigit, cs.dropWhile Char.isDigit)

def digitOf (c : Char) : Fin 10 := Fin.ofNat 10 (Text.digitValue c)

def readFraction : List Char → Option (List (Fin 10) × List Char)
  | '.' :: cs =>
    let (digits, rest) := spanDigits cs
    if digits = [] then none else some (digits.map digitOf, rest)
  | cs => some ([], cs)

def readSign : List Char → Bool × List Char
  | '-' :: cs => (true, cs)
  | '+' :: cs => (false, cs)
  | cs => (false, cs)

def readExponent : List Char → Option (Option Int × List Char)
  | c :: cs =>
    if c = 'e' ∨ c = 'E' then
      let (negative, cs) := readSign cs
      let (digits, rest) := spanDigits cs
      if digits = [] then none
      else
        let e : Int := Text.ofDigits digits
        some (some (if negative then -e else e), rest)
    else
      some (none, c :: cs)
  | [] => some (none, [])

def readWhole (cs : List Char) : Option (Nat × List Char) :=
  let (digits, rest) := spanDigits cs
  if digits = [] ∨ (digits.head? = some '0' ∧ digits ≠ ['0']) then none
  else some (Text.ofDigits digits, rest)

def readNumber (cs : List Char) : Option (Number × List Char) := do
  let (negative, cs) :=
    match cs with
    | '-' :: cs => (true, cs)
    | cs => (false, cs)
  let (whole, cs) ← readWhole cs
  let (fraction, cs) ← readFraction cs
  let (exponent, cs) ← readExponent cs
  return (⟨negative, whole, fraction, exponent⟩, cs)

mutual
def readValue : Nat → List Char → Option (Json × List Char)
  | 0, _ => none
  | fuel + 1, cs =>
    match skipBlanks cs with
    | '"' :: cs => (readText cs).map fun (s, rest) => (textOf s, rest)
    | '[' :: cs =>
      match skipBlanks cs with
      | ']' :: rest => some (array [], rest)
      | cs => (readItems fuel cs).map fun (items, rest) => (array items, rest)
    | '{' :: cs =>
      match skipBlanks cs with
      | '}' :: rest => some (object [], rest)
      | cs => (readMembers fuel cs).map fun (members, rest) => (objectOf members, rest)
    | 'n' :: 'u' :: 'l' :: 'l' :: rest => some (null, rest)
    | 't' :: 'r' :: 'u' :: 'e' :: rest => some (bool true, rest)
    | 'f' :: 'a' :: 'l' :: 's' :: 'e' :: rest => some (bool false, rest)
    | cs => (readNumber cs).map fun (n, rest) => (number n, rest)

/-- One item or more, up to the closing bracket. -/
def readItems : Nat → List Char → Option (List Json × List Char)
  | 0, _ => none
  | fuel + 1, cs => do
    let (item, cs) ← readValue fuel cs
    match skipBlanks cs with
    | ',' :: cs =>
      let (items, rest) ← readItems fuel cs
      return (item :: items, rest)
    | ']' :: rest => return ([item], rest)
    | _ => none

/-- One member or more, up to the closing brace. -/
def readMembers : Nat → List Char → Option (List (Option String × Json) × List Char)
  | 0, _ => none
  | fuel + 1, cs => do
    let '"' :: cs := skipBlanks cs | none
    let (name, cs) ← readText cs
    let ':' :: cs := skipBlanks cs | none
    let (value, cs) ← readValue fuel cs
    match skipBlanks cs with
    | ',' :: cs =>
      let (members, rest) ← readMembers fuel cs
      return ((name, value) :: members, rest)
    | '}' :: rest => return ([(name, value)], rest)
    | _ => none
end

/-- The value that the whole text denotes. -/
def ofChars? (cs : List Char) : Option Json := do
  let (value, rest) ← readValue (2 * cs.length + 1) cs
  if skipBlanks rest = [] then return value else none

def ofString? (s : String) : Option Json := ofChars? s.toList

end BondingCurve.Json
