import ChipHighlight.Text.Basic

/-!
# White space

The white space of the notation is that of Unicode together with the four
information separators U+001C to U+001F: the characters that separate words or
lines in running text, the no-break spaces included.  A text is blank when it is
not empty and holds nothing else.
-/

namespace ChipHighlight

/-- The white-space code points, as closed ranges in ascending order. -/
def spaceRanges : List (Nat × Nat) :=
  [(0x09, 0x0D), (0x1C, 0x20), (0x85, 0x85), (0xA0, 0xA0), (0x1680, 0x1680),
   (0x2000, 0x200A), (0x2028, 0x2029), (0x202F, 0x202F), (0x205F, 0x205F), (0x3000, 0x3000)]

/-- **White space.**  The separators of Unicode and the ASCII controls that part
words or lines. -/
def isSpace (c : Char) : Bool :=
  spaceRanges.any fun r => r.1 ≤ c.toNat && c.toNat ≤ r.2

def isBlank (t : Text) : Bool := !t.isEmpty && t.all isSpace

@[simp] theorem isBlank_nil : isBlank [] = false := rfl

theorem isBlank_cons (c : Char) (t : Text) : isBlank (c :: t) = (isSpace c && t.all isSpace) := by
  simp [isBlank]

end ChipHighlight
