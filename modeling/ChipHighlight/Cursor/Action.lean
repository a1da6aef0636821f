import ChipHighlight.Cursor.Basic

/-!
# What a host does with a cursor

The actions of a host on a cursor, one at a time, with a stack beside it for those
that read a whole span.  An action gives an answer and a new state; it fails, and
changes nothing, only when it has to read from before the beginning of the line.
-/

namespace ChipHighlight

/-- What a character is compared with: a text, which only a text of that one
character matches, or a class. -/
inductive Matcher
  | text (t : Text)
  | among (p : Char → Bool)

def Matcher.test : Matcher → Char → Bool
  | text t, c => [c] == t
  | among p, c => p c

namespace Cursor

inductive Action
  | atEnd
  | atStart
  | look
  | take
  /-- Takes the next character if it matches. -/
  | takeIf (m : Matcher)
  /-- Takes all characters up to the first that does not match. -/
  | takeWhile (m : Matcher)
  | takeSpace
  | toEnd
  | spanText
  | beginSpan
  | retreat (n : Int)
  | setPlace (n : Int)
  /-- Sets the place where the present span began. -/
  | setSpanStart (n : Int)
  | display
  | read (rules : Rules)

inductive Answer
  | done
  | truth (value : Bool)
  | char (c : Option Char)
  | text (t : Text)
  | style (s : Option Style)

structure Desk where
  cursor : Cursor
  stack : Stack

namespace Desk

def answer (d : Desk) (a : Answer) : Option (Answer × Desk) := some (a, d)

def move (d : Desk) (c : Cursor) (a : Answer) : Option (Answer × Desk) :=
  some (a, { d with cursor := c })

def look (d : Desk) : Option (Answer × Desk) := do
  let rest ← d.cursor.rest?
  d.answer (.char rest.head?)

def takeIf (d : Desk) (p : Char → Bool) : Option (Answer × Desk) := do
  let rest ← d.cursor.rest?
  match rest with
  | [] => d.answer (.char none)
  | c :: _ => if p c then d.move (d.cursor.advance 1) (.char (some c)) else d.answer (.char none)

/-- Takes all characters up to the first on which `p` does not hold, and says
whether there were any. -/
def takeWhile (d : Desk) (p : Char → Bool) : Option (Answer × Desk) := do
  let rest ← d.cursor.rest?
  let n := Text.runLength p rest
  d.move (d.cursor.advance n) (.truth (0 < n))

def read (d : Desk) (rules : Rules) : Option (Answer × Desk) := do
  let reading ← d.cursor.read? rules d.stack
  return (.style reading.style, ⟨d.cursor.advance reading.length, reading.stack⟩)

/-- **What an action does**, or nothing when it cannot read. -/
def perform (d : Desk) : Action → Option (Answer × Desk)
  | .atEnd => d.answer (.truth d.cursor.atEnd)
  | .atStart => d.answer (.truth d.cursor.atStart)
  | .look => d.look
  | .take => d.takeIf fun _ => true
  | .takeIf m => d.takeIf m.test
  | .takeWhile m => d.takeWhile m.test
  | .takeSpace => d.takeWhile isSpace
  | .toEnd => d.move d.cursor.toEnd .done
  | .spanText => d.answer (.text d.cursor.spanText)
  | .beginSpan => d.move d.cursor.beginSpan .done
  | .retreat n => d.move (d.cursor.retreat n) .done
  | .setPlace n => d.move { d.cursor with place := n } .done
  | .setSpanStart n => d.move { d.cursor with spanStart := n } .done
  | .display => d.answer (.text d.cursor.display)
  | .read rules => d.read rules

/-- The desk after an action; one that fails leaves it as it is. -/
def after (d : Desk) (action : Action) : Desk :=
  match d.perform action with
  | some (_, d) => d
  | none => d

end Desk

/-- How a host is told that nothing could be read at the place of a cursor. -/
def unreadable (c : Cursor) : Text := Index.missing "string".toList c.place

end Cursor

end ChipHighlight
