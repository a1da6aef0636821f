import ChipHighlight.Line

/-!
# Scans that stop and go on

A scan reads a line or a document one token at a time.  Between two tokens it
stands still, so its stack can be looked at, the rules can change, and other scans
can go on; what it reads next depends on what it finds then.

A scan is the list of the lines that are not finished, of which only the first can
be begun.  `OpenLine.next` goes on in one line to the next token or to the end of
the line, and `next` goes on from line to line, reporting the ends it passes.  The
end of a line comes to light only when a token behind it is asked for.

    pull n   asks for n tokens, and meets the end when one of them is not there.
-/

namespace ChipHighlight

/-- A line that is not finished: what is read of it, nearest character first, what
is not, the offset between them, and how many tokens it gave. -/
structure OpenLine where
  number : Int
  before : Text := []
  rest : Text
  offset : Nat := 0
  emitted : Nat := 0
deriving DecidableEq, Repr

namespace OpenLine

/-- The number of characters of the whole line. -/
def chars (line : OpenLine) : Nat := line.offset + line.rest.length

def ended (line : OpenLine) (depth : Nat) : Event :=
  .lineEnd line.number line.chars line.emitted depth

def advance (line : OpenLine) (taken rest : Text) : OpenLine :=
  { line with
    before := taken.reverse ++ line.before
    rest := rest
    offset := line.offset + taken.length }

def emit (line : OpenLine) : OpenLine := { line with emitted := line.emitted + 1 }

inductive Step
  | token (token : Token) (line : OpenLine) (stack : Stack)
  | finished (stack : Stack)

/-- **Goes on in one line** to the next token that is handed out, or to its end. -/
def next (mode : Mode) (rules : Rules) (keepGaps : Bool) (stack : Stack) (line : OpenLine) :
    Step :=
  match _hrest : line.rest with
  | [] => .finished stack
  | c :: t =>
    match mode.read rules stack line.before (c :: t) with
    | ⟨_, 0, stack⟩ => .finished stack
    | ⟨style, n + 1, stack⟩ =>
      let token := Span.token line.number line.offset ⟨c :: t.take n, style, stack⟩
      if keeps keepGaps token then
        .token token (line.advance (c :: t.take n) (t.drop n)).emit stack
      else
        next mode rules keepGaps stack (line.advance (c :: t.take n) (t.drop n))
termination_by line.rest.length
decreasing_by
  rw [_hrest]
  show (t.drop n).length < t.length + 1
  rw [List.length_drop]
  omega

end OpenLine

/-- A scan that can go on: the mode, whether gaps are handed out, and the lines
that are not finished. -/
structure Scan where
  mode : Mode
  keepGaps : Bool
  lines : List OpenLine

structure Pull where
  token : Option Token
  events : List Event
  stack : Stack
  lines : List OpenLine

/-- What asking for some tokens gives, and whether the end was met. -/
structure Batch where
  tokens : List Token
  events : List Event
  stack : Stack
  scan : Scan
  finished : Bool

namespace Scan

def ofLine (mode : Mode) (keepGaps : Bool) (number : Int) (line : Text) : Scan :=
  ⟨mode, keepGaps, [{ number := number, rest := line }]⟩

def numbered : Int → List Text → List OpenLine
  | _, [] => []
  | number, line :: rest => { number := number, rest := line } :: numbered (number + 1) rest

def ofSource (mode : Mode) (keepGaps : Bool) (source : Text) : Scan :=
  ⟨mode, keepGaps, numbered 1 (linesOf source)⟩

def close (scan : Scan) : Scan := { scan with lines := [] }

/-- Goes on through the given lines to the next token. -/
def nextIn (mode : Mode) (rules : Rules) (keepGaps : Bool) : Stack → List OpenLine → Pull
  | stack, [] => ⟨none, [], stack, []⟩
  | stack, line :: others =>
    match line.next mode rules keepGaps stack with
    | .token token line stack => ⟨some token, [], stack, line :: others⟩
    | .finished stack =>
      let pull := nextIn mode rules keepGaps stack others
      { pull with events := line.ended stack.length :: pull.events }

def next (rules : Rules) (stack : Stack) (scan : Scan) : Pull :=
  nextIn scan.mode rules scan.keepGaps stack scan.lines

/-- **Asks for `n` tokens**, one after the other, and no further once one of them
is not there. -/
def pull (rules : Rules) : Nat → Stack → Scan → Batch
  | 0, stack, scan => ⟨[], [], stack, scan, false⟩
  | n + 1, stack, scan =>
    match scan.next rules stack with
    | ⟨none, events, stack, lines⟩ => ⟨[], events, stack, { scan with lines := lines }, true⟩
    | ⟨some token, events, stack, lines⟩ =>
      let batch := pull rules n stack { scan with lines := lines }
      { batch with tokens := token :: batch.tokens, events := events ++ batch.events }

end Scan

end ChipHighlight
