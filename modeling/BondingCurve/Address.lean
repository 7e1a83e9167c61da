import BondingCurve.Error
import BondingCurve.Text.Blank
import BondingCurve.Text.Hex

/-!
# Account identities

Creator, signers, reserve custody and fee recipient are opaque identities of thirty-two bytes.
Their text is sixty-four lower-case hexadecimal digits; reading also admits upper case, blanks at
the ends and one `0x` in front.
-/

namespace BondingCurve

open Text (hexDigit hexValue?)

structure Address where
  bytes : List UInt8
  size_eq : bytes.length = 32
deriving DecidableEq

namespace Address

def ofBytes? (bytes : List UInt8) : Option Address :=
  if h : bytes.length = 32 then some ⟨bytes, h⟩ else none

/-- The unset identity. -/
def zero : Address := ⟨List.replicate 32 0, by decide⟩

instance : Inhabited Address := ⟨zero⟩

def hexChars (bytes : List UInt8) : List Char :=
  bytes.flatMap fun b => [hexDigit (b.toNat / 16), hexDigit b.toNat]

def toChars (a : Address) : List Char := hexChars a.bytes

instance : ToString Address := ⟨fun a => String.ofList a.toChars⟩

/-- The first eight bytes, for logs and assertions. -/
def abbreviated (a : Address) : String :=
  let digits := String.ofList (hexChars (a.bytes.take 8))
  s!"Address({digits})"

/-- Two digits a byte; a digit left over is an error. -/
def readHex : List Char → Option (List UInt8)
  | [] => some []
  | [_] => none
  | c :: d :: cs => do
    let high ← hexValue? c
    let low ← hexValue? d
    return UInt8.ofNat (16 * high + low) :: (← readHex cs)

def dropMark : List Char → List Char
  | '0' :: 'x' :: cs => cs
  | cs => cs

def read? (cs : List Char) : Option Address :=
  (readHex (dropMark (Text.trim cs))).bind ofBytes?

/-- Reads an address; the error shows the text as it was given. -/
def ofString (s : String) : Except Error Address :=
  match read? s.toList with
  | some a => .ok a
  | none => .error (.invalidAddress s)

/-- Reads addresses separated by commas, in order. -/
def listOfString (s : String) : Except Error (List Address) :=
  (s.toList.splitOn ',').mapM fun entry => ofString (String.ofList (Text.trim entry))

end Address

end BondingCurve
