import ChipHighlight.Line

/-!
# A stack and a saved copy

A host that edits keeps the stack it works with and a copy of an earlier one, to
compare them or to go back.  The actions are those on the working stack, the two
that tie it to the copy, and reading one line with it.
-/

namespace ChipHighlight

/-- The stack a host works with, and a saved one. -/
structure Checkpoint where
  working : Stack
  saved : Stack := []

namespace Checkpoint

inductive Action
  | push (a : Literal)
  | pop
  | active
  | depth
  | setEscaped (value : Bool)
  | copy
  | swap
  | compare
  | readLine (line : Text)

inductive Answer
  | done
  | literal (a : Option Literal)
  | count (n : Nat)
  | truth (value : Bool)
  | tokens (tokens : List Token)

inductive Fault
  /-- There is no literal to take off. -/
  | nothingToPop
  /-- There is no literal to set a flag on. -/
  | nothingToFlag

def Fault.message : Fault → Text
  | nothingToPop => "pop from empty list".toList
  | nothingToFlag => "'NoneType' object has no attribute 'escaped'".toList

/-- **What an action does.**  Taking a literal off and setting a flag need one to be
open. -/
def perform (c : Checkpoint) : Action → Except Fault (Answer × Checkpoint)
  | .push a => .ok (.done, { c with working := a :: c.working })
  | .pop =>
    match c.working with
    | [] => .error .nothingToPop
    | a :: outer => .ok (.literal (some a), { c with working := outer })
  | .active => .ok (.literal c.working.head?, c)
  | .depth => .ok (.count c.working.length, c)
  | .setEscaped value =>
    match c.working with
    | [] => .error .nothingToFlag
    | a :: outer => .ok (.done, { c with working := { a with escaped := value } :: outer })
  | .copy => .ok (.done, { c with saved := c.working })
  | .swap => .ok (.done, ⟨c.saved, c.working⟩)
  | .compare => .ok (.truth (c.working == c.saved), c)
  | .readLine line =>
    let row := Mode.blip.row {} false 1 c.working line
    .ok (.tokens row.tokens, { c with working := row.stack })

end Checkpoint

end ChipHighlight
