import ChipHighlight.Event

/-!
# The log

Records go to named channels.  All channels lie below one root, so a name that
does not begin with the root is put below it.
-/

namespace ChipHighlight.Log

def root : Text := "bliplex".toList

def channel (name : Text) : Text :=
  if name == root || (root ++ ['.']).isPrefixOf name then name else root ++ '.' :: name

structure Record where
  level : Text
  channel : Text
  message : Text

/-- The channel of what happens while lines are read. -/
def reading : Text := channel "highlight".toList

def record? (event : Event) : Option Record :=
  event.message?.map fun message => ⟨"DEBUG".toList, reading, message⟩

def ofEvents (events : List Event) : List Record := events.filterMap record?

end ChipHighlight.Log
