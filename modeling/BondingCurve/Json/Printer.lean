import BondingCurve.Json.Value
import BondingCurve.Text.Hex

/-!
# Printing JSON

Compact text without blanks. A string escapes the quote, the backslash and control characters;
everything else stands for itself.
-/

namespace BondingCurve.Json

/-- The letter after the backslash for characters with a short escape. -/
def shortEscape? (c : Char) : Option Char :=
  if c = '"' then some '"'
  else if c = '\\' then some '\\'
  else if c = '\x08' then some 'b'
  else if c = '\x0c' then some 'f'
  else if c = '\n' then some 'n'
  else if c = '\r' then some 'r'
  else if c = '\t' then some 't'
  else none

def escapeChar (c : Char) : List Char :=
  match shortEscape? c with
  | some e => ['\\', e]
  | none =>
    if c.toNat < 0x20 then ['\\', 'u', '0', '0', Text.hexDigit (c.toNat / 16),
      Text.hexDigit c.toNat]
    else [c]

def textChars (s : String) : List Char := '"' :: s.toList.flatMap escapeChar ++ ['"']

def Number.chars (n : Number) : List Char :=
  let sign := if n.negative then ['-'] else []
  let fraction :=
    if n.fraction = [] then [] else '.' :: n.fraction.map fun d => Nat.digitChar d.val
  let exponent :=
    match n.exponent with
    | none => []
    | some (.ofNat e) => 'e' :: Nat.toDigits 10 e
    | some (.negSucc e) => 'e' :: '-' :: Nat.toDigits 10 (e + 1)
  sign ++ Nat.toDigits 10 n.whole ++ fraction ++ exponent

mutual
def chars : Json → List Char
  | null => ['n', 'u', 'l', 'l']
  | bool true => ['t', 'r', 'u', 'e']
  | bool false => ['f', 'a', 'l', 's', 'e']
  | number n => n.chars
  | text s => textChars s
  | array [] => ['[', ']']
  | array (item :: items) => '[' :: item.chars ++ tailItems items
  | object [] => ['{', '}']
  | object ((name, value) :: members) =>
    '{' :: textChars name ++ ':' :: value.chars ++ tailMembers members
  | unreadable => ['"', '\\', 'u', 'd', '8', '0', '0', '"']

/-- The items after the first, and the closing bracket. -/
def tailItems : List Json → List Char
  | [] => [']']
  | item :: items => ',' :: item.chars ++ tailItems items

/-- The members after the first, and the closing brace. -/
def tailMembers : List (String × Json) → List Char
  | [] => ['}']
  | (name, value) :: members =>
    ',' :: textChars name ++ ':' :: value.chars ++ tailMembers members
end

def render (j : Json) : String := String.ofList j.chars

instance : ToString Json := ⟨render⟩

end BondingCurve.Json
