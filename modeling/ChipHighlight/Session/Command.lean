import ChipHighlight.Config.Reader
import ChipHighlight.Highlighter
import ChipHighlight.Profile
import ChipHighlight.Scan

/-!
# What a host can ask for

A host drives a session by commands and gets a reply or a fault for each.  The
commands fall into five families: the active configuration, profiles, named
stacks, scans run at once or step by step, and the highlighter.
-/

namespace ChipHighlight

/-- What to scan: a document, or a single line that may go on from a named
stack. -/
inductive Job
  | document (mode : Mode) (keepGaps : Bool) (source : Text)
  | line (mode : Mode) (keepGaps : Bool) (number : Int) (stackName : Option Text) (text : Text)

def Job.scan : Job → Scan
  | document mode keepGaps source => .ofSource mode keepGaps source
  | line mode keepGaps number _ text => .ofLine mode keepGaps number text

def Job.stackName? : Job → Option Text
  | document _ _ _ => none
  | line _ _ _ name _ => name

def Job.transcribe (rules : Rules) (stack : Stack) : Job → Transcript
  | document mode keepGaps source => mode.transcribe rules keepGaps 1 stack (linesOf source)
  | line mode keepGaps number _ text => mode.transcribeLine rules keepGaps number stack text

inductive CommandFault
  /-- The settings do not make a configuration. -/
  | config (fault : Config.Fault)
  /-- What was given as a style is none. -/
  | noStyle (given : Setting)
  /-- The highlighter has no such line. -/
  | noSuchLine (number : Int)
  /-- There is nothing to leave. -/
  | nothingEntered
  /-- Nothing has this name. -/
  | unknownName (name : Text)

def CommandFault.message : CommandFault → Text
  | config fault => fault.message
  | noStyle given => Style.unknown given.display
  | noSuchLine number => Index.missing "list".toList (number - 1)
  | nothingEntered => "pop from empty list".toList
  | unknownName name => quoted name

inductive Command
  /-- Makes settings the active configuration. -/
  | setConfig (given : Setting)
  | resetConfig
  /-- Makes settings the active configuration until it is left again. -/
  | enterConfig (given : Setting)
  /-- Restores the configuration that was active when the innermost one was
  entered. -/
  | exitConfig
  | showConfig
  | enterProfile
  | exitProfile
  | showProfile
  /-- Counts a line that was read elsewhere. -/
  | record (chars tokens : Int)
  | newStack (name : Text) (stack : Stack)
  | copyStack (source target : Text)
  | showStack (name : Text)
  | sameStacks (a b : Text)
  | run (job : Job)
  /-- Prepares a job to be run step by step. -/
  | openScan (name : Text) (job : Job)
  /-- Asks a scan for tokens; to ask for none needs no scan. -/
  | pull (name : Text) (count : Nat)
  | closeScan (name : Text)
  /-- Replaces the highlighter by a new one.  What is wrong with the start of its
  mode, if anything, comes out when it begins a document. -/
  | newHighlighter (mode : Mode) (startFault : Option CommandFault)
  | update (lines : List Text) (first : Int)
  | showTokens (number : Int)
  /-- Shows what is open behind a line of the highlighter, and copies it to a
  named stack if a name is given. -/
  | showRowStack (number : Int) (saveAs : Option Text)
  | showAllTokens
  | showRowStacks
  | showLines
  | countLines

inductive Reply
  | done
  | config (config : Config)
  | profile (profile : Option Profile)
  | stack (stack : Stack)
  | perLine (carried : List Stack)
  | truth (value : Bool)
  | tokens (tokens : List Token)
  | batch (tokens : List Token) (finished : Bool)
  | lines (lines : List Text)
  | count (n : Nat)

end ChipHighlight
