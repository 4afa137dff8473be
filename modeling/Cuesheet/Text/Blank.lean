/-!
# White space

The characters with the Unicode property White_Space, and trimming them off both ends of a text.
-/

set_option autoImplicit false

namespace Cuesheet.Text

/-- The ranges of characters that count as white space. -/
def blankRanges : List (Nat × Nat) :=
  [(0x9, 0xD), (0x20, 0x20), (0x85, 0x85), (0xA0, 0xA0), (0x1680, 0x1680), (0x2000, 0x200A),
    (0x2028, 0x2029), (0x202F, 0x202F), (0x205F, 0x205F), (0x3000, 0x3000)]

/-- Whether a character is in one of the ranges. -/
def inRanges (ranges : List (Nat × Nat)) (c : Char) : Bool :=
  ranges.any fun (first, last) => first ≤ c.toNat && c.toNat ≤ last

/-- Whether a character is white space. -/
def isBlank (c : Char) : Bool := inRanges blankRanges c

/-- The text without white space at its ends. -/
def trim (s : String) : String :=
  String.ofList ((s.toList.dropWhile isBlank).reverse.dropWhile isBlank).reverse

/-- Whether the text is nothing but white space. -/
def isBlankText (s : String) : Bool := s.toList.all isBlank

/-- A text is nothing but white space exactly when trimming leaves nothing. -/
theorem isBlankText_iff (s : String) : isBlankText s = true ↔ s.toList.dropWhile isBlank = [] := by
  unfold isBlankText
  generalize s.toList = cs
  induction cs with
  | nil => simp
  | cons c rest ih => by_cases h : isBlank c = true <;> simp [List.dropWhile, h, ih]

end Cuesheet.Text
