import ChipHighlight.Text.Basic

/-!
# Places in a sequence, counted from either end

A place is an integer.  From zero on it counts from the beginning; below zero it
counts from the end, so that -1 is the last place.  `place?` finds an item and may
fail; `clamp` finds a boundary between items and never fails, because a place
beyond either end means that end.

A host that asks for an item that is not there is told so, in other words when the
place is not even a signed number of 64 bits.
-/

namespace ChipHighlight.Index

/-- A place counted from the beginning; still negative if it lies before it. -/
def fromStart (length : Nat) (i : Int) : Int := if i < 0 then i + length else i

/-- **The item at a place**, by its number from the beginning. -/
def place? (length : Nat) (i : Int) : Option Nat :=
  if 0 ≤ fromStart length i ∧ fromStart length i < length then some (fromStart length i).toNat
  else none

/-- **The boundary at a place**, by the number of items before it. -/
def clamp (length : Nat) (i : Int) : Nat := min (fromStart length i).toNat length

def slice {α : Type} (l : List α) (i j : Int) : List α :=
  (l.take (clamp l.length j)).drop (clamp l.length i)

def get? {α : Type} (l : List α) (i : Int) : Option α :=
  (place? l.length i).bind fun k => l[k]?

/-- Whether a place is a signed number of 64 bits. -/
def fitsWord (i : Int) : Bool := -0x8000000000000000 ≤ i && i < 0x8000000000000000

/-- How a host is told that a sequence, of the kind that is named, has no item at a
place. -/
def missing (kind : Text) (i : Int) : Text :=
  if fitsWord i then kind ++ " index out of range".toList
  else "cannot fit 'int' into an index-sized integer".toList

end ChipHighlight.Index
