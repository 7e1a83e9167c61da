/-!
# Blank characters

The twenty-five characters with the Unicode property `White_Space`, and texts without them at
either end.
-/

namespace BondingCurve.Text

/-- First and last character of each run of white space. -/
def blankRanges : List (Nat × Nat) :=
  [(0x9, 0xD), (0x20, 0x20), (0x85, 0x85), (0xA0, 0xA0), (0x1680, 0x1680), (0x2000, 0x200A),
    (0x2028, 0x2029), (0x202F, 0x202F), (0x205F, 0x205F), (0x3000, 0x3000)]

def isBlank (c : Char) : Bool :=
  blankRanges.any fun (first, last) => first ≤ c.toNat && c.toNat ≤ last

def trimStart (cs : List Char) : List Char := cs.dropWhile isBlank

def trimEnd (cs : List Char) : List Char := (cs.reverse.dropWhile isBlank).reverse

def trim (cs : List Char) : List Char := trimEnd (trimStart cs)

theorem trim_nil : trim [] = [] := rfl

/-- Trimming leaves a text alone when neither end is blank. -/
theorem trim_eq_self {cs : List Char} (hFirst : ∀ c ∈ cs.head?, isBlank c = false)
    (hLast : ∀ c ∈ cs.getLast?, isBlank c = false) : trim cs = cs := by
  have hStart : trimStart cs = cs := by
    cases cs with
    | nil => rfl
    | cons c cs => simp [trimStart, List.dropWhile, hFirst c rfl]
  have hEnd : trimEnd cs = cs := by
    unfold trimEnd
    rw [← List.head?_reverse] at hLast
    cases hr : cs.reverse with
    | nil => simpa using hr.symm
    | cons c rest =>
      rw [hr] at hLast
      simp only [List.dropWhile, hLast c rfl]
      rw [← hr, List.reverse_reverse]
  rw [trim, hStart, hEnd]

end BondingCurve.Text
