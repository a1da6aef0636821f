import ChipHighlight.Index
import ChipHighlight.Reading
import ChipHighlight.Text.Quoted

/-!
# Cursors

A cursor is a place in one line together with the place where the present span
began.  Moved only by what it offers it stays within the line, but a host may set
both places freely.  A place below zero then counts from the end of the line, as
in `Index`: reading from there goes up to the end, where the places turn from -1
to 0, and so on through the line from its beginning; and from a place before the
beginning nothing can be read at all.  `rest?` is the text that lies ahead in this
sense, and every operation reads that text only.
-/

namespace ChipHighlight

/-- A place in a line, and the place where the present span began. -/
structure Cursor where
  line : Text
  place : Int := 0
  spanStart : Int := 0
deriving DecidableEq, Repr

namespace Cursor

def ofLine (line : Text) : Cursor := { line := line }

def atEnd (c : Cursor) : Bool := c.line.length ≤ c.place

def atStart (c : Cursor) : Bool := c.place == 0

/-- **The text ahead**; there is none before the beginning of the line. -/
def rest? (c : Cursor) : Option Text :=
  if c.atEnd then some []
  else if 0 ≤ c.place then some (c.line.drop c.place.toNat)
  else if -c.line.length ≤ c.place then
    some (c.line.drop (c.place + c.line.length).toNat ++ c.line)
  else none

def advance (c : Cursor) (n : Nat) : Cursor := { c with place := c.place + n }

def toEnd (c : Cursor) : Cursor := { c with place := c.line.length }

/-- The cursor `n` characters back, but not in front of the present span. -/
def retreat (c : Cursor) (n : Int) : Cursor := { c with place := max c.spanStart (c.place - n) }

def beginSpan (c : Cursor) : Cursor := { c with spanStart := c.place }

def spanText (c : Cursor) : Text := Index.slice c.line c.spanStart c.place

/-- **One reading at a cursor.**  A word is looked up as it stands in the line
between the places before and behind it. -/
def read? (rules : Rules) (stack : Stack) (c : Cursor) : Option Reading :=
  c.rest?.map fun rest =>
    match stack, rest with
    | [], d :: t =>
      let lexeme := Lexeme.read rules.lenient d t
      if lexeme.kind = .word then
        ⟨wordStyle rules (Index.slice c.line c.place (c.place + lexeme.length)), lexeme.length, []⟩
      else readLexeme rules d t
    | stack, rest => readNext rules stack rest

def display (c : Cursor) : Text :=
  "StringStream(".toList ++ quoted c.line ++ ", start=".toList ++ Text.ofInt c.spanStart ++
    ", pos=".toList ++ Text.ofInt c.place ++ [')']

end Cursor

end ChipHighlight
