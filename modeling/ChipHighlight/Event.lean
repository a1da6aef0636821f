import ChipHighlight.Text.Basic

/-!
# What happens during a scan

Whatever reads lines lists what happens on the way as events, in order.  Two
things follow them: a profile, which counts the lines that ended, and a log, for
which `message?` words those events that a log keeps.
-/

namespace ChipHighlight

inductive Event
  /-- A line was read to its end: its number, its length, how many tokens it
  gave, and how many literals are open behind it. -/
  | lineEnd (number : Int) (chars tokens depth : Nat)
  /-- A highlighter dropped lines that it had read under another configuration. -/
  | configChanged
  /-- A highlighter was told that an edit starts where its document has no line. -/
  | startRejected (start : Int)
  /-- From this line on a highlighter kept what it had. -/
  | converged (number : Int)
deriving DecidableEq, Repr

namespace Event

/-- **The log line of an event**, for the events that have one: the end of a line
is logged when a literal is still open there. -/
def message? : Event → Option Text
  | lineEnd _ _ _ 0 => none
  | lineEnd number _ _ (depth + 1) =>
    some ("Line ".toList ++ Text.ofInt number ++ " ends inside ".toList ++
      Text.ofNat (depth + 1) ++ " open literal(s)".toList)
  | configChanged => some "Lexer config changed, re-scanning all lines".toList
  | startRejected start =>
    some ("Edit start ".toList ++ Text.ofInt start ++
      " out of range, re-scanning all lines".toList)
  | converged number =>
    some ("Highlight state converged at line ".toList ++ Text.ofInt number)

end Event

end ChipHighlight
