import BondingCurve.Toml.Scalar

/-!
# Reading TOML

A document is read line by line into statements, which then build its table. Values nest, and
dotted keys run, to a depth below eighty. A line ends with a line feed, with or without a carriage
return before it.
-/

namespace BondingCurve.Toml

def depthLimit : Nat := 80

/-- Line ends as bare line feeds; a carriage return may stand nowhere else. -/
def unifyLines : List Char → Option (List Char)
  | '\r' :: '\n' :: cs => (unifyLines cs).map ('\n' :: ·)
  | c :: cs => if c = '\r' then none else (unifyLines cs).map (c :: ·)
  | [] => some []

def skipBlanks (cs : List Char) : List Char := cs.dropWhile isBlank

def skipLines (comment : Bool) : List Char → Option (List Char)
  | [] => some []
  | c :: cs =>
    if c = '\n' then skipLines false cs
    else if comment then if isPlain c then skipLines true cs else none
    else if isBlank c then skipLines false cs
    else if c = '#' then skipLines true cs
    else some (c :: cs)

def skipLineEnd (comment : Bool) : List Char → Option (List Char)
  | [] => some []
  | c :: cs =>
    if c = '\n' then some cs
    else if comment then if isPlain c then skipLineEnd true cs else none
    else if isBlank c then skipLineEnd false cs
    else if c = '#' then skipLineEnd true cs
    else none

def isBareChar (c : Char) : Bool := c.isAlphanum || c == '_' || c == '-'

def readKeyPart : List Char → Option (String × List Char)
  | '"' :: cs => (readBasic cs).map fun (s, rest) => (String.ofList s, rest)
  | '\'' :: cs => (readLiteral cs).map fun (s, rest) => (String.ofList s, rest)
  | cs =>
    let part := cs.takeWhile isBareChar
    if part = [] then none else some (String.ofList part, cs.dropWhile isBareChar)

def readKeyParts : Nat → List Char → Option (List String × List Char)
  | 0, _ => none
  | fuel + 1, cs => do
    let (part, cs) ← readKeyPart (skipBlanks cs)
    match skipBlanks cs with
    | '.' :: cs =>
      let (parts, rest) ← readKeyParts fuel cs
      return (part :: parts, rest)
    | rest => return ([part], rest)

def readKey (cs : List Char) : Option (List String × String × List Char) := do
  let (parts, rest) ← readKeyParts (depthLimit - 1) cs
  return (parts.dropLast, ← parts.getLast?, rest)

mutual
def readValue : Nat → Nat → List Char → Option (Item × List Char)
  | 0, _, _ => none
  | fuel + 1, depth, cs =>
    match cs, depth with
    | '"' :: _, _ | '\'' :: _, _ => (skipString cs).map (.scalar, ·)
    | '[' :: cs, depth + 1 =>
      (readArray fuel depth cs).map fun (items, rest) => (.array items, rest)
    | '{' :: cs, depth + 1 =>
      match skipBlanks cs with
      | '}' :: rest => some (.inlineTable [], rest)
      | cs => do
        let (statements, rest) ← readInline fuel depth cs
        return (.inlineTable (← Entries.ofStatements? statements), rest)
    | cs, _ => readToken cs

/-- The items of an array up to its closing bracket; a comma may follow the last. -/
def readArray : Nat → Nat → List Char → Option (List Item × List Char)
  | 0, _, _ => none
  | fuel + 1, depth, cs => do
    match ← skipLines false cs with
    | ']' :: rest => return ([], rest)
    | cs =>
      let (item, cs) ← readValue fuel depth cs
      match ← skipLines false cs with
      | ',' :: cs =>
        let (items, rest) ← readArray fuel depth cs
        return (item :: items, rest)
      | ']' :: rest => return ([item], rest)
      | _ => none

/-- The entries of a table in one line, one at least, up to its closing brace. -/
def readInline : Nat → Nat → List Char → Option (List Statement × List Char)
  | 0, _, _ => none
  | fuel + 1, depth, cs => do
    let (path, key, cs) ← readKey cs
    let '=' :: cs := cs | none
    let (value, cs) ← readValue fuel depth (skipBlanks cs)
    match skipBlanks cs with
    | ',' :: cs =>
      let (statements, rest) ← readInline fuel depth cs
      return (.entry path key value :: statements, rest)
    | '}' :: rest => return ([.entry path key value], rest)
    | _ => none
end

def readStatement (fuel : Nat) : List Char → Option (Statement × List Char)
  | '[' :: '[' :: cs => do
    let (path, key, cs) ← readKey cs
    let ']' :: ']' :: cs := cs | none
    return (.arrayHeader path key, cs)
  | '[' :: cs => do
    let (path, key, cs) ← readKey cs
    let ']' :: cs := cs | none
    return (.header path key, cs)
  | cs => do
    let (path, key, cs) ← readKey cs
    let '=' :: cs := cs | none
    let (value, cs) ← readValue fuel (depthLimit - 1) (skipBlanks cs)
    return (.entry path key value, cs)

def readStatements : Nat → List Char → Option (List Statement)
  | 0, _ => none
  | fuel + 1, cs => do
    match ← skipLines false cs with
    | [] => return []
    | cs =>
      let (statement, cs) ← readStatement (2 * cs.length + 1) cs
      return statement :: (← readStatements fuel (← skipLineEnd false cs))

def ofString? (s : String) : Option Entries := do
  let cs ← unifyLines (if s.toList.head? = some '\uFEFF' then s.toList.tail else s.toList)
  Entries.ofStatements? (← readStatements (cs.length + 1) cs)

end BondingCurve.Toml
