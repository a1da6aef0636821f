import ChipHighlight.Text.Space

/-!
# Character classes

Every rule of the notation is decided by looking at one character at a time, so
the alphabet comes as a handful of classes.  Digits and word characters are ASCII
only; white space is not (see `isSpace`).  A class is a test on characters;
`members` lists the ASCII part of one, and `spells` extends one to texts, where
only a text of exactly one character can belong to a class of characters.
-/

namespace ChipHighlight

/-! ### The marks of the notation -/

def commentMark : Char := '%'

/-- The mark that hides the character after it. -/
def escapeMark : Char := '\\'

/-- The mark that raises a note. -/
def sharpMark : Char := '#'

def fractionMark : Char := '/'

/-! ### The classes -/

def isDigit (c : Char) : Bool := '0' ≤ c && c ≤ '9'

def isWordPart (c : Char) : Bool :=
  'a' ≤ c && c ≤ 'z' || 'A' ≤ c && c ≤ 'Z' || isDigit c || c == '_' || c == '-'

def isPunctuation (c : Char) : Bool := c == '[' || c == ']' || c == ':' || c == ';'

def isQuote (c : Char) : Bool := c == '\'' || c == '"'

def isSign (c : Char) : Bool := c == '+' || c == '-'

def isNoteName (c : Char) : Bool := 'a' ≤ c && c ≤ 'h'

/-- **Which notes can be raised.**  Between b and c, between e and f, and above h
there is no key in between. -/
def hasSharp (c : Char) : Bool := c == 'a' || c == 'c' || c == 'd' || c == 'f' || c == 'g'

/-! ### Classes as sets of texts -/

/-- A text of exactly one character belongs to the class of that character; no
other text does. -/
def spells (p : Char → Bool) : Text → Bool
  | [c] => p c
  | _ => false

/-- The ASCII characters of a class, in ascending order. -/
def members (p : Char → Bool) : Text := ((List.range 128).map Char.ofNat).filter p

/-- The names of the notes in ascending order: each letter, and its sharp where
there is one. -/
def noteNames : List Text :=
  (members isNoteName).flatMap fun c =>
    if hasSharp c then [[c], [c, sharpMark]] else [[c]]

end ChipHighlight
