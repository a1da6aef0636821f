import ChipHighlight.Alphabet

/-!
# What an editor is told about the notation

Besides highlighting, an editor wants to know what to call the notation, how a
line is turned into a comment, which marks come in pairs, and how blocks fold.
-/

namespace ChipHighlight.Editor

def version : Text := "0.1.0".toList

structure Description where
  name : Text
  mediaType : Text
  commentStart : Text
  pairs : Text
  folding : Text

/-- The notation highlighted here. -/
def blip : Description where
  name := "blip".toList
  mediaType := "text/x-blip".toList
  commentStart := [commentMark]
  pairs := ['[', ']', '\'', '\'', '"', '"']
  folding := "brace".toList

end ChipHighlight.Editor
