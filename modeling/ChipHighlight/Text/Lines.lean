import ChipHighlight.Text.Basic

/-!
# Lines

A line ends at a line feed, at a carriage return, or at the pair of both.
`linesOf` joins every pair into a line feed, turns the carriage returns that
are left into line feeds, and cuts at the line feeds.  The last line is kept even
when it is empty, so there is always at least one.
-/

namespace ChipHighlight

/-- Every carriage return that a line feed follows is dropped. -/
def joinPairs : Text → Text
  | [] => []
  | '\r' :: '\n' :: t => '\n' :: joinPairs t
  | c :: t => c :: joinPairs t

/-- Every carriage return becomes a line feed. -/
def feedReturns (t : Text) : Text := t.map fun c => if c = '\r' then '\n' else c

def cutAtFeeds : Text → List Text
  | [] => [[]]
  | c :: t =>
    if c = '\n' then [] :: cutAtFeeds t
    else match cutAtFeeds t with
      | [] => [[c]]
      | line :: rest => (c :: line) :: rest

/-- **The lines of a document.**  CRLF, CR and LF each end a line. -/
def linesOf (source : Text) : List Text := cutAtFeeds (feedReturns (joinPairs source))

theorem cutAtFeeds_ne_nil (t : Text) : cutAtFeeds t ≠ [] := by
  cases t with
  | nil => simp [cutAtFeeds]
  | cons c t =>
    rw [cutAtFeeds]
    split
    · simp
    · split <;> simp

theorem linesOf_ne_nil (source : Text) : linesOf source ≠ [] := cutAtFeeds_ne_nil _

end ChipHighlight
