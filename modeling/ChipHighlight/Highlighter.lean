import ChipHighlight.Config.Basic
import ChipHighlight.Index
import ChipHighlight.Line

/-!
# Highlighting while a document is edited

A highlighter keeps, for every line of a document, its tokens and what is open
behind it.  After an edit `update` gets the new document and the first line that
may differ.  The rows before that line are kept.  From there on lines are read
again, until what is open behind a line is what was open there before and the
lines that follow are the end of the old document; then the rest of the old rows
is kept as well, moved to their new line numbers:

    kept rows | lines read again | kept rows, moved
    0 …         start …            start + scanned …

Under another configuration nothing that was kept may be used, so `refresh` drops
it first.  An edit that starts where the document has no line is taken to start at
the first.

Where the documents end alike is found by `sharedEnd`, the number of last lines
that both have in common.  If `remaining` lines are still to be read and that many
are shared, the old row in front of them stands `remaining + 1` rows before the
end: `keptAfter?` compares its stack with the new one.
-/

namespace ChipHighlight

/-! ### Where two documents end alike -/

def sharedStart : List Text → List Text → Nat
  | a :: as, b :: bs => if a = b then sharedStart as bs + 1 else 0
  | _, _ => 0

def sharedEnd (old new : List Text) : Nat := sharedStart old.reverse new.reverse

/-! ### Rows that can be kept -/

def Row.moveDown (k : Int) (row : Row) : Row :=
  { row with tokens := row.tokens.map (Token.moveDown k) }

/-- The last `remaining` of the old rows, if that many last lines are unchanged
and the row in front of them left what is open now. -/
def keptAfter? (old : List Row) (shared remaining : Nat) (stack : Stack) : Option (List Row) :=
  if 0 < remaining ∧ remaining ≤ shared ∧ remaining < old.length then
    match old.drop (old.length - remaining - 1) with
    | row :: kept => if row.stack = stack then some kept else none
    | [] => none
  else none

structure Rescan where
  rows : List Row
  scanned : Nat
  events : List Event

/-- Reads lines again until the old rows can be kept. -/
def Mode.rescan (mode : Mode) (rules : Rules) (old : List Row) (shared : Nat) (shift : Int) :
    Int → Stack → List Text → Rescan
  | _, _, [] => ⟨[], 0, []⟩
  | number, stack, line :: rest =>
    let row := mode.row rules false number stack line
    match keptAfter? old shared rest.length row.stack with
    | some kept =>
      ⟨row :: kept.map (Row.moveDown shift), 1, [row.ended number line, .converged (number + 1)]⟩
    | none =>
      let others := mode.rescan rules old shared shift (number + 1) row.stack rest
      ⟨row :: others.rows, others.scanned + 1, row.ended number line :: others.events⟩

/-! ### The highlighter -/

/-- A document with the rows of its lines, and the configuration they were read
under. -/
structure Highlighter where
  mode : Mode
  lines : List Text := []
  rows : List Row := []
  config : Option Config := none

structure Update where
  highlighter : Highlighter
  scanned : Nat
  events : List Event

namespace Highlighter

def new (mode : Mode) : Highlighter := { mode := mode }

/-- Whether what is kept was read under this configuration, or an equal one. -/
def isCurrent (h : Highlighter) (config : Config) : Bool :=
  match h.config with
  | some kept => config.same kept
  | none => false

/-- The highlighter without what was read under another configuration. -/
def refresh (h : Highlighter) (config : Config) : Highlighter :=
  if h.isCurrent config then h
  else { h with lines := [], rows := [], config := some config }

def refreshEvents (h : Highlighter) (config : Config) : List Event :=
  if h.isCurrent config || h.lines.isEmpty then [] else [.configChanged]

/-- Whether an edit may start at the given line, counted from zero; the line
behind the last one is allowed. -/
def acceptsStart (h : Highlighter) (first : Int) : Bool := 0 ≤ first && first ≤ h.lines.length

def startOf (h : Highlighter) (first : Int) (lines : List Text) : Nat :=
  if h.acceptsStart first then min first.toNat lines.length else 0

def startEvents (h : Highlighter) (first : Int) : List Event :=
  if h.acceptsStart first then [] else [.startRejected first]

/-- Reading again from the line `start` on, when nothing kept is out of date. -/
def rescanFrom (h : Highlighter) (rules : Rules) (start : Nat) (lines : List Text) : Rescan :=
  h.mode.rescan rules h.rows (sharedEnd h.lines lines) (lines.length - h.lines.length)
    (start + 1) (Row.stackAfter h.mode.start (h.rows.take start)) (lines.drop start)

/-- **Takes over an edited document**, of which the lines before `first` are
unchanged. -/
def update (h : Highlighter) (config : Config) (lines : List Text) (first : Int) : Update :=
  let current := h.refresh config
  let start := current.startOf first lines
  let rescan := current.rescanFrom config.rules start lines
  { highlighter :=
      { current with lines := lines, rows := current.rows.take start ++ rescan.rows }
    scanned := rescan.scanned
    events := h.refreshEvents config ++ current.startEvents first ++ rescan.events }

/-! ### What is kept -/

/-- The row of a line; lines count from one, and from zero down they count back
from the last. -/
def row? (h : Highlighter) (number : Int) : Option Row := Index.get? h.rows (number - 1)

def allTokens (h : Highlighter) : List Token := h.rows.flatMap Row.tokens

end Highlighter

end ChipHighlight
