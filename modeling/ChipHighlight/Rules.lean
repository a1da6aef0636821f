import ChipHighlight.WordSet
import ChipHighlight.Style

/-!
# The rules that can be chosen

Most of the notation is fixed.  Three rules can be chosen, and a reading looks at
nothing else: whether a sharp is read with every note letter, which words count as
keywords besides the reserved ones, and the style of a literal that opens.
-/

namespace ChipHighlight

structure Rules where
  lenient : Bool := false
  keywords : WordSet := .empty
  literalStyle : Style := .string
deriving DecidableEq

end ChipHighlight
