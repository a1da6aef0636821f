import ChipHighlight.Style
import ChipHighlight.Text.Quoted

/-!
# Tokens

A token is a span of one line as it is handed to an editor: its style, its text,
and where it stands.  Lines and columns count from one.  `start` and `stop` count from
zero: they are the numbers of characters of the line before the token and before
what follows it.
-/

namespace ChipHighlight

/-- A classified span of one line. -/
structure Token where
  style : Option Style
  text : Text
  line : Int := 1
  column : Int := 1
  start : Int := 0
  stop : Int := 0
deriving DecidableEq, Repr

namespace Token

/-- Whether the token is white space that no rule gives a style. -/
def isGap (t : Token) : Bool := t.style.isNone && isBlank t.text

def moveDown (k : Int) (t : Token) : Token := { t with line := t.line + k }

/-- The text of a token as it is shown: a long one is cut to twenty characters,
of which the last three say so. -/
def shownText (t : Token) : Text :=
  if 20 < t.text.length then t.text.take 17 ++ "...".toList else t.text

def shownStyle (t : Token) : Text :=
  match t.style with
  | some s => s.title
  | none => "NONE".toList

def display (t : Token) : Text :=
  "Token(".toList ++ t.shownStyle ++ ", ".toList ++ quoted t.shownText ++ ", ".toList ++
    Text.ofInt t.line ++ ':' :: Text.ofInt t.column ++ [')']

end Token

end ChipHighlight
