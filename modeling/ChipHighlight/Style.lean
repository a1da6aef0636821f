import ChipHighlight.Text.Basic

/-!
# Styles

The six classes that a span of text can be shown in.  Text that no rule claims
has no class: wherever a class may be missing the type is `Option Style`.
-/

namespace ChipHighlight

/-- The class of a highlighted span: reserved words, brackets and separators,
quoted literals, comments, numbers and fractions, notes with their octave. -/
inductive Style
  | keyword
  | punctuation
  | string
  | comment
  | number
  | note
deriving DecidableEq, Repr

namespace Style

/-- All styles, in the order in which they are listed to an editor. -/
def all : List Style := [keyword, punctuation, string, comment, number, note]

/-- The name that an editor maps to a colour. -/
def name : Style → Text
  | keyword => "keyword".toList
  | punctuation => "punctuation".toList
  | string => "string".toList
  | comment => "comment".toList
  | number => "number".toList
  | note => "attribute".toList

def title (s : Style) : Text := s.name.map Char.toUpper

def ofName? (t : Text) : Option Style := all.find? fun s => s.name == t

/-- How a host is told that what it gave, shown as messages show it, is no style. -/
def unknown (shown : Text) : Text := shown ++ " is not a valid TokenClass".toList

@[simp] theorem ofName?_name (s : Style) : ofName? s.name = some s := by cases s <;> rfl

theorem name_of_ofName? {t : Text} {s : Style} (h : ofName? t = some s) : s.name = t := by
  simpa using List.find?_some h

end Style

end ChipHighlight
