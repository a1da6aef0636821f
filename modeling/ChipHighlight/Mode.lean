import ChipHighlight.Reading

/-!
# Modes

A mode says how lines are read and what is open at the start of a document.  All
that reads lines and documents takes any mode.  A mode's reading gets the part of
the line that is already read, nearest character first, and the rest of the line.
It may refuse to go on by reading nothing, and then the line ends there.

Two things are asked of a mode that a host brings along.  What it reads is a function of
the rules, the stack and the line: it keeps nothing in mind between two readings, and of
a configuration it looks at the rules alone.  And it stays within the line, which is why
`within` is part of the type.

The mode of the notation itself is `Mode.blip`, which looks at the rest of the line
only and never refuses.  `Mode.stopping` is that mode with a character in front of
which it does refuse.
-/

namespace ChipHighlight

/-- How lines are read, and what is open at the start of a document. -/
structure Mode where
  start : Stack
  read : Rules → Stack → (before rest : Text) → Reading
  within : ∀ (rules : Rules) (stack : Stack) (before rest : Text),
    (read rules stack before rest).length ≤ rest.length

namespace Mode

def blip : Mode where
  start := []
  read rules stack _ rest := readNext rules stack rest
  within rules stack _ rest := length_readNext_le rules stack rest

def stopsAt (stop : Option Char) (t : Text) : Bool :=
  match stop, t with
  | some c, d :: _ => c == d
  | _, _ => false

/-- The mode of the notation, but refusing to go on in front of `stop`. -/
def stopping (start : Stack) (stop : Option Char) : Mode where
  start := start
  read rules stack _ rest :=
    if stopsAt stop rest then ⟨none, 0, stack⟩ else readNext rules stack rest
  within rules stack _ rest := by
    split
    · exact Nat.zero_le _
    · exact length_readNext_le rules stack rest

end Mode

end ChipHighlight
