import ChipHighlight.Text.Space
import ChipHighlight.Text.Unmarked

/-!
# Quoted text

Messages show a text between quotes and on one line.  The quotes are single,
unless the text holds a single quote and no double one; the quote used and the
backslash get a backslash before them; tab, line feed and carriage return have
letters; and every other character that would not be visible is written by its
code point in as few of the widths 2, 4 and 8 as hold it.
-/

namespace ChipHighlight

/-- Whether a character can be seen in running text; a blank can. -/
def isVisible (c : Char) : Bool := c == ' ' || !(isSpace c || isUnmarked c)

/-- The last `width` hexadecimal digits of a number, in lower case. -/
def hexDigits : Nat → Nat → Text
  | 0, _ => []
  | width + 1, n => hexDigits width (n / 16) ++ [Nat.digitChar (n % 16)]

/-- One character of a quoted text, where `quote` stands at both ends. -/
def quotedChar (quote c : Char) : Text :=
  if c = '\\' || c = quote then ['\\', c]
  else if c = '\t' then ['\\', 't']
  else if c = '\n' then ['\\', 'n']
  else if c = '\r' then ['\\', 'r']
  else if isVisible c then [c]
  else if c.toNat < 0x100 then '\\' :: 'x' :: hexDigits 2 c.toNat
  else if c.toNat < 0x10000 then '\\' :: 'u' :: hexDigits 4 c.toNat
  else '\\' :: 'U' :: hexDigits 8 c.toNat

def quoteFor (t : Text) : Char := if t.contains '\'' && !t.contains '"' then '"' else '\''

/-- **A text as messages show it.** -/
def quoted (t : Text) : Text :=
  quoteFor t :: t.flatMap (quotedChar (quoteFor t)) ++ [quoteFor t]

end ChipHighlight
