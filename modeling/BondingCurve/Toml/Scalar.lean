import BondingCurve.Text.Digits
import BondingCurve.Text.Hex
import BondingCurve.Toml.Table

/-!
# TOML strings, numbers and dates

Strings are read for their characters, since a key may be one. Every other scalar is a token, a
run of letters, digits and `_ + - . :`, and is recognised as a whole.
-/

namespace BondingCurve.Toml

open Text (ofDigits digitValue hexValue?)

attribute [local instance (high)] instPowNat

/-- Characters that may stand in a string or a comment: all but control characters, save the
tab. -/
def isPlain (c : Char) : Bool := c == '\t' || (0x20 ≤ c.toNat && c.toNat != 0x7F)

def isBlank (c : Char) : Bool := c == ' ' || c == '\t'

def escaped? (e : Char) : Option Char :=
  if e = 'b' then some '\x08'
  else if e = 't' then some '\t'
  else if e = 'n' then some '\n'
  else if e = 'f' then some '\x0c'
  else if e = 'r' then some '\r'
  else if e = '"' then some '"'
  else if e = '\\' then some '\\'
  else none

/-- The character with the given hexadecimal code, unless that is half of a surrogate pair. -/
def scalarOf? (digits : List Char) : Option Char := do
  let code := (← digits.mapM hexValue?).foldl (fun n d => 16 * n + d) 0
  if code.isValidChar then return Char.ofNat code else none

def readBasic : List Char → Option (List Char × List Char)
  | '"' :: cs => some ([], cs)
  | '\\' :: 'u' :: a :: b :: c :: d :: cs => do
    let x ← scalarOf? [a, b, c, d]
    let (s, rest) ← readBasic cs
    return (x :: s, rest)
  | '\\' :: 'U' :: a :: b :: c :: d :: e :: f :: g :: h :: cs => do
    let x ← scalarOf? [a, b, c, d, e, f, g, h]
    let (s, rest) ← readBasic cs
    return (x :: s, rest)
  | '\\' :: e :: cs => do
    let x ← escaped? e
    let (s, rest) ← readBasic cs
    return (x :: s, rest)
  | c :: cs => if isPlain c then (readBasic cs).map fun (s, rest) => (c :: s, rest) else none
  | [] => none

def readLiteral : List Char → Option (List Char × List Char)
  | '\'' :: cs => some ([], cs)
  | c :: cs => if isPlain c then (readLiteral cs).map fun (s, rest) => (c :: s, rest) else none
  | [] => none

/-- What follows a backslash that ends a line: blanks and line ends are passed over. -/
def skipFold (cs : List Char) : Option (List Char) :=
  match cs.dropWhile isBlank with
  | '\n' :: rest => some (rest.dropWhile fun c => isBlank c || c == '\n')
  | _ => none

theorem length_skipFold_lt {cs rest : List Char} (h : skipFold cs = some rest) :
    rest.length < cs.length := by
  unfold skipFold at h
  split at h
  · rename_i tail heq
    cases h
    have hle := (List.dropWhile_sublist (l := cs) isBlank).length_le
    have hle' := (List.dropWhile_sublist (l := tail) fun c => isBlank c || c == '\n').length_le
    rw [heq, List.length_cons] at hle
    omega
  · cases h

/-- What follows a multi-line basic string. One or two quotes may stand before the closing
three. -/
def skipBasicLines : List Char → Option (List Char)
  | '"' :: '"' :: '"' :: '"' :: '"' :: rest => some rest
  | '"' :: '"' :: '"' :: '"' :: rest => some rest
  | '"' :: '"' :: '"' :: rest => some rest
  | '\\' :: 'u' :: a :: b :: c :: d :: cs =>
    if (scalarOf? [a, b, c, d]).isSome then skipBasicLines cs else none
  | '\\' :: 'U' :: a :: b :: c :: d :: e :: f :: g :: h :: cs =>
    if (scalarOf? [a, b, c, d, e, f, g, h]).isSome then skipBasicLines cs else none
  | '\\' :: e :: cs =>
    if (escaped? e).isSome then skipBasicLines cs
    else
      match _h : skipFold (e :: cs) with
      | some rest => skipBasicLines rest
      | none => none
  | c :: cs => if c == '\n' || isPlain c then skipBasicLines cs else none
  | [] => none
termination_by cs => cs.length
decreasing_by
  all_goals simp only [List.length_cons]
  all_goals try omega
  have := length_skipFold_lt _h
  simp only [List.length_cons] at this
  omega

def skipLiteralLines : List Char → Option (List Char)
  | '\'' :: '\'' :: '\'' :: '\'' :: '\'' :: rest => some rest
  | '\'' :: '\'' :: '\'' :: '\'' :: rest => some rest
  | '\'' :: '\'' :: '\'' :: rest => some rest
  | c :: cs => if c == '\n' || isPlain c then skipLiteralLines cs else none
  | [] => none

def skipString : List Char → Option (List Char)
  | '"' :: '"' :: '"' :: cs => skipBasicLines cs
  | '\'' :: '\'' :: '\'' :: cs => skipLiteralLines cs
  | '"' :: cs => (readBasic cs).map (·.2)
  | '\'' :: cs => (readLiteral cs).map (·.2)
  | _ => none

/-- Digits of a kind with single underscores between them. -/
def IsRun (digit : Char → Bool) (cs : List Char) : Prop :=
  ∀ part ∈ cs.splitOn '_', part ≠ [] ∧ ∀ c ∈ part, digit c = true

instance (digit : Char → Bool) (cs : List Char) : Decidable (IsRun digit cs) :=
  inferInstanceAs (Decidable (∀ part ∈ cs.splitOn '_', _))

def dropUnderscores (cs : List Char) : List Char := cs.filter (· != '_')

def IsWhole (cs : List Char) : Prop :=
  IsRun Char.isDigit cs ∧ (cs.head? = some '0' → cs = ['0'])

instance (cs : List Char) : Decidable (IsWhole cs) := inferInstanceAs (Decidable (_ ∧ _))

def splitSign : List Char → Bool × List Char
  | '-' :: cs => (true, cs)
  | '+' :: cs => (false, cs)
  | cs => (false, cs)

def ofBase (base : Nat) (cs : List Char) : Nat :=
  (dropUnderscores cs).foldl (fun n c => base * n + (hexValue? c).getD 0) 0

/-- Integers have sixty-four bits; in another base they carry no sign. -/
def isInteger : List Char → Bool
  | '0' :: 'x' :: cs => IsRun (fun c => (hexValue? c).isSome) cs && ofBase 16 cs < 2 ^ (63 : Nat)
  | '0' :: 'o' :: cs => IsRun (fun c => '0' ≤ c && c ≤ '7') cs && ofBase 8 cs < 2 ^ (63 : Nat)
  | '0' :: 'b' :: cs => IsRun (fun c => c == '0' || c == '1') cs && ofBase 2 cs < 2 ^ (63 : Nat)
  | cs =>
    let (negative, digits) := splitSign cs
    let n := ofDigits (dropUnderscores digits)
    IsWhole digits && (if negative then n ≤ 2 ^ (63 : Nat) else n < 2 ^ (63 : Nat))

/-- Whether `mantissa * 10 ^ exponent` rounds to a finite double. -/
def isFinite (mantissa : Nat) (exponent : Int) : Bool :=
  let size := (Nat.toDigits 10 mantissa).length + exponent
  if mantissa = 0 ∨ size < 300 then true
  else if 320 < size then false
  else mantissa * 10 ^ exponent.toNat < (2 ^ (1024 : Nat) - 2 ^ (970 : Nat)) * 10 ^ (-exponent).toNat

/-- A float has a fraction, an exponent or both; a positive one has to be finite. -/
def isFloat (cs : List Char) : Bool :=
  let (negative, unsigned) := splitSign cs
  if unsigned = ['i', 'n', 'f'] ∨ unsigned = ['n', 'a', 'n'] then true
  else
    let isMark := fun c : Char => c == 'e' || c == 'E'
    let mantissa := unsigned.takeWhile (!isMark ·)
    let exponentPart := (unsigned.dropWhile (!isMark ·)).tail
    let whole := mantissa.takeWhile (· != '.')
    let fraction := (mantissa.dropWhile (· != '.')).tail
    let (below, exponentDigits) := splitSign exponentPart
    let hasPoint := mantissa.contains '.'
    let hasMark := unsigned.any isMark
    let digits := dropUnderscores (whole ++ fraction)
    let e : Int := ofDigits (dropUnderscores exponentDigits)
    (hasPoint || hasMark) && IsWhole whole &&
      (!hasPoint || IsRun Char.isDigit fraction) &&
      (!hasMark || IsRun Char.isDigit exponentDigits) &&
      (negative || isFinite (ofDigits digits)
        ((if below then -e else e) - (dropUnderscores fraction).length))

def twoDigits? (low high : Nat) (c d : Char) : Option Nat :=
  let n := 10 * digitValue c + digitValue d
  if c.isDigit ∧ d.isDigit ∧ low ≤ n ∧ n ≤ high then some n else none

def fourDigits? (a b c d : Char) : Option Nat :=
  if [a, b, c, d].all Char.isDigit then some (ofDigits [a, b, c, d]) else none

def daysIn (year month : Nat) : Nat :=
  if month = 2 then
    if year % 4 = 0 ∧ (year % 100 ≠ 0 ∨ year % 400 = 0) then 29 else 28
  else if month ∈ [4, 6, 9, 11] then 30 else 31

def skipDate : List Char → Option (List Char)
  | y₁ :: y₂ :: y₃ :: y₄ :: '-' :: m₁ :: m₂ :: '-' :: d₁ :: d₂ :: cs => do
    let year ← fourDigits? y₁ y₂ y₃ y₄
    let month ← twoDigits? 1 12 m₁ m₂
    let _ ← twoDigits? 1 (daysIn year month) d₁ d₂
    return cs
  | _ => none

def skipTime : List Char → Option (List Char)
  | h₁ :: h₂ :: ':' :: m₁ :: m₂ :: ':' :: s₁ :: s₂ :: cs => do
    let _ ← twoDigits? 0 23 h₁ h₂
    let _ ← twoDigits? 0 59 m₁ m₂
    let _ ← twoDigits? 0 60 s₁ s₂
    match cs with
    | '.' :: cs => if cs.takeWhile Char.isDigit = [] then none else return cs.dropWhile Char.isDigit
    | cs => return cs
  | _ => none

def isOffset : List Char → Bool
  | ['Z'] | ['z'] => true
  | [sign, h₁, h₂, ':', m₁, m₂] =>
    (sign == '+' || sign == '-') && (twoDigits? 0 23 h₁ h₂).isSome && (twoDigits? 0 59 m₁ m₂).isSome
  | _ => false

def isZonedTime (cs : List Char) : Bool :=
  match skipTime cs with
  | some rest => rest = [] || isOffset rest
  | none => false

def isDate (cs : List Char) : Bool := skipDate cs = some []

def isDateTime (cs : List Char) : Bool :=
  skipTime cs = some [] ||
    match skipDate cs with
    | some [] => true
    | some (t :: rest) => (t == 'T' || t == 't') && isZonedTime rest
    | none => false

def isTokenChar (c : Char) : Bool := c.isAlphanum || c ∈ ['_', '+', '-', '.', ':']

def spanToken (cs : List Char) : List Char × List Char :=
  (cs.takeWhile isTokenChar, cs.dropWhile isTokenChar)

/-- A date and a time of day may stand apart by one space. -/
def readToken (cs : List Char) : Option (Item × List Char) :=
  let (token, rest) := spanToken cs
  if token = ['t', 'r', 'u', 'e'] then some (.boolean true, rest)
  else if token = ['f', 'a', 'l', 's', 'e'] then some (.boolean false, rest)
  else if isDate token then
    match rest with
    | ' ' :: more =>
      let (time, after) := spanToken more
      if isZonedTime time then some (.dateTime, after) else some (.dateTime, rest)
    | _ => some (.dateTime, rest)
  else if isDateTime token then some (.dateTime, rest)
  else if isInteger token || isFloat token then some (.scalar, rest)
  else none

end BondingCurve.Toml
