import ChipHighlight.Event
import ChipHighlight.Mode
import ChipHighlight.Text.Lines
import ChipHighlight.Token

/-!
# Lines and documents, read at once

`Mode.spans` reads a line from left to right, one reading after the other, and
lists what each found; a reading that takes nothing ends the line, and stands last
in the list with an empty text.  From the spans come the tokens, which know where
they stand, and the stack that the next line starts with,

    tokens   Span.place number 0 (mode.spans rules stack [] line)
    stack    Span.stackAfter stack (mode.spans rules stack [] line).

Gaps, which are spans of white space without a style, are left out unless they are
asked for; nothing else depends on that.  A document is read line by line, each
line starting with the stack that the one before it left.
-/

namespace ChipHighlight

/-! ### Spans -/

/-- What one reading took, and what was open after it. -/
structure Span where
  text : Text
  style : Option Style
  stack : Stack
deriving DecidableEq, Repr

namespace Span

def stackAfter : Stack → List Span → Stack
  | stack, [] => stack
  | _, span :: rest => stackAfter span.stack rest

def token (number : Int) (offset : Nat) (span : Span) : Token where
  style := span.style
  text := span.text
  line := number
  column := offset + 1
  start := offset
  stop := offset + span.text.length

def place (number : Int) : Nat → List Span → List Token
  | _, [] => []
  | offset, span :: rest =>
    if span.text.isEmpty then place number offset rest
    else span.token number offset :: place number (offset + span.text.length) rest

end Span

namespace Mode

/-- **The spans of a line** of which `before` is already read. -/
def spans (mode : Mode) (rules : Rules) (stack : Stack) (before : Text) : Text → List Span
  | [] => []
  | c :: t =>
    match mode.read rules stack before (c :: t) with
    | ⟨style, 0, next⟩ => [⟨[], style, next⟩]
    | ⟨style, n + 1, next⟩ =>
      ⟨c :: t.take n, style, next⟩ ::
        mode.spans rules next ((c :: t.take n).reverse ++ before) (t.drop n)
termination_by rest => rest.length
decreasing_by
  rw [List.length_drop, List.length_cons]
  omega

@[simp] theorem spans_nil (mode : Mode) (rules : Rules) (stack : Stack) (before : Text) :
    mode.spans rules stack before [] = [] := by
  rw [spans]

theorem spans_refused {mode : Mode} {rules : Rules} {stack next : Stack} {before : Text}
    {c : Char} {t : Text} {style : Option Style}
    (h : mode.read rules stack before (c :: t) = ⟨style, 0, next⟩) :
    mode.spans rules stack before (c :: t) = [⟨[], style, next⟩] := by
  rw [spans, h]

theorem spans_read {mode : Mode} {rules : Rules} {stack next : Stack} {before : Text}
    {c : Char} {t : Text} {style : Option Style} {n : Nat}
    (h : mode.read rules stack before (c :: t) = ⟨style, n + 1, next⟩) :
    mode.spans rules stack before (c :: t) =
      ⟨c :: t.take n, style, next⟩ ::
        mode.spans rules next ((c :: t.take n).reverse ++ before) (t.drop n) := by
  rw [spans, h]

end Mode

/-! ### Rows -/

/-- What is kept of a line: its tokens, and what is open behind it. -/
structure Row where
  tokens : List Token
  stack : Stack
deriving DecidableEq, Repr

def Row.ended (row : Row) (number : Int) (line : Text) : Event :=
  .lineEnd number line.length row.tokens.length row.stack.length

def keeps (keepGaps : Bool) (token : Token) : Bool := keepGaps || !token.isGap

def Row.ofSpans (keepGaps : Bool) (number : Int) (stack : Stack) (spans : List Span) : Row where
  tokens := (Span.place number 0 spans).filter (keeps keepGaps)
  stack := Span.stackAfter stack spans

namespace Mode

/-- **A line, read at once.** -/
def row (mode : Mode) (rules : Rules) (keepGaps : Bool) (number : Int) (stack : Stack)
    (line : Text) : Row :=
  .ofSpans keepGaps number stack (mode.spans rules stack [] line)

/-- The rows of consecutive lines, of which the first has the given number. -/
def rows (mode : Mode) (rules : Rules) (keepGaps : Bool) : Int → Stack → List Text → List Row
  | _, _, [] => []
  | number, stack, line :: rest =>
    let row := mode.row rules keepGaps number stack line
    row :: mode.rows rules keepGaps (number + 1) row.stack rest

end Mode

/-! ### Documents -/

namespace Row

def stackAfter : Stack → List Row → Stack
  | stack, [] => stack
  | _, row :: rest => stackAfter row.stack rest

def endings : Int → List Text → List Row → List Event
  | number, line :: lines, row :: rows => row.ended number line :: endings (number + 1) lines rows
  | _, _, _ => []

end Row

structure Transcript where
  tokens : List Token
  events : List Event
  stack : Stack
deriving DecidableEq, Repr

def Transcript.ofRows (number : Int) (stack : Stack) (lines : List Text) (rows : List Row) :
    Transcript where
  tokens := rows.flatMap Row.tokens
  events := Row.endings number lines rows
  stack := Row.stackAfter stack rows

namespace Mode

def transcribe (mode : Mode) (rules : Rules) (keepGaps : Bool) (number : Int) (stack : Stack)
    (lines : List Text) : Transcript :=
  .ofRows number stack lines (mode.rows rules keepGaps number stack lines)

/-- **A document, read at once.**  It begins outside of literals, whatever the
mode starts with. -/
def transcribeSource (mode : Mode) (rules : Rules) (keepGaps : Bool) (source : Text) : Transcript :=
  mode.transcribe rules keepGaps 1 [] (linesOf source)

def transcribeLine (mode : Mode) (rules : Rules) (keepGaps : Bool) (number : Int) (stack : Stack)
    (line : Text) : Transcript :=
  mode.transcribe rules keepGaps number stack [line]

end Mode

end ChipHighlight
