import ChipHighlight.Registry
import ChipHighlight.Session.Command

/-!
# Sessions

A session is what a host works in: one active configuration, a pile of profiles of
which the top one counts, stacks under names, scans under names, and one
highlighter.

Two things come in scopes.  Entering a configuration saves the one that was
active and leaving restores it, whatever was set in between; entering a profile
puts a new one on top and leaving takes it off, and nothing that happened in
between is counted below.

A scan may share a named stack with others: it goes on from what it finds there
and leaves there what is open afterwards.  It keeps the stack that the name had
when it was opened, also when the name is given to another stack later.  So names
lead to cells, cells hold stacks, and a scan holds a cell.

A highlighter whose mode has no proper start (`startFault`) never takes over a
document: it has no rows to go on from, so every update begins with that start.
-/

namespace ChipHighlight

/-- Where a scan keeps its stack: to itself, or in a cell. -/
inductive Carrier
  | own (stack : Stack)
  | shared (cell : Nat)

def Carrier.holding (stack : Stack) : Carrier → Carrier
  | .own _ => .own stack
  | .shared cell => .shared cell

structure OpenScan where
  scan : Scan
  carrier : Carrier

structure Session where
  config : Config := .default
  saved : List Config := []
  profiles : List Profile := []
  cells : List Stack := []
  names : Registry Nat := {}
  scans : Registry OpenScan := {}
  highlighter : Highlighter := .new .blip
  startFault : Option CommandFault := none

structure Outcome where
  session : Session
  reply : Except CommandFault Reply
  events : List Event := []

namespace Session

def answer (s : Session) (reply : Reply) : Outcome := ⟨s, .ok reply, []⟩

def fail (s : Session) (fault : CommandFault) : Outcome := ⟨s, .error fault, []⟩

def note (s : Session) (events : List Event) : Session :=
  match s.profiles with
  | [] => s
  | profile :: outer => { s with profiles := profile.follow events :: outer }

/-- A command that read something: its events are counted and reported. -/
def report (s : Session) (reply : Reply) (events : List Event) : Outcome :=
  ⟨s.note events, .ok reply, events⟩

/-! ### Configurations -/

def activate (config : Config) (s : Session) : Session := { s with config := config }

def save (s : Session) : Session := { s with saved := s.config :: s.saved }

/-- Settings become the active configuration of a session. -/
def configure (s prepared : Session) (given : Setting) : Outcome :=
  match Config.ofSetting given with
  | .ok config => (prepared.activate config).answer .done
  | .error fault => s.fail (.config fault)

def exitConfig (s : Session) : Outcome :=
  match s.saved with
  | [] => s.fail .nothingEntered
  | config :: saved => answer { s with config := config, saved := saved } .done

/-! ### Profiles -/

def exitProfile (s : Session) : Outcome :=
  match s.profiles with
  | [] => s.fail .nothingEntered
  | profile :: outer => answer { s with profiles := outer } (.profile (some profile))

def record (s : Session) (chars tokens : Int) : Session :=
  match s.profiles with
  | [] => s
  | profile :: outer => { s with profiles := profile.record chars tokens :: outer }

/-! ### Stacks -/

def cell (s : Session) (cell : Nat) : Stack := s.cells[cell]?.getD []

def newStack (name : Text) (stack : Stack) (s : Session) : Session :=
  { s with cells := s.cells ++ [stack], names := s.names.put name s.cells.length }

def withCell (s : Session) (name : Text) (go : Nat → Outcome) : Outcome :=
  match s.names.get? name with
  | some cell => go cell
  | none => s.fail (.unknownName name)

def carried (s : Session) : Carrier → Stack
  | .own stack => stack
  | .shared cell => s.cell cell

/-- Leaves a stack in the cell of a carrier, if it has one. -/
def leave (s : Session) (stack : Stack) : Carrier → Session
  | .own _ => s
  | .shared cell => { s with cells := s.cells.set cell stack }

/-! ### Scans -/

def withCarrier (s : Session) (job : Job) (go : Carrier → Outcome) : Outcome :=
  match job.stackName? with
  | none => go (.own [])
  | some name => s.withCell name fun cell => go (.shared cell)

def run (s : Session) (job : Job) (carrier : Carrier) : Outcome :=
  let transcript := job.transcribe s.config.rules (s.carried carrier)
  (s.leave transcript.stack carrier).report (.tokens transcript.tokens) transcript.events

def putScan (name : Text) (scan : OpenScan) (s : Session) : Session :=
  { s with scans := s.scans.put name scan }

def withScan (s : Session) (name : Text) (go : OpenScan → Outcome) : Outcome :=
  match s.scans.get? name with
  | some scan => go scan
  | none => s.fail (.unknownName name)

def pull (s : Session) (name : Text) (count : Nat) (running : OpenScan) : Outcome :=
  let batch := running.scan.pull s.config.rules count (s.carried running.carrier)
  let left := s.leave batch.stack running.carrier
  (left.putScan name ⟨batch.scan, running.carrier.holding batch.stack⟩).report
    (.batch batch.tokens batch.finished) batch.events

/-! ### The highlighter -/

def update (s : Session) (lines : List Text) (first : Int) : Outcome :=
  match s.startFault with
  | some fault => ⟨s, .error fault, s.highlighter.startEvents first⟩
  | none =>
    let update := s.highlighter.update s.config lines first
    report { s with highlighter := update.highlighter } (.count update.scanned) update.events

def withRow (s : Session) (number : Int) (go : Row → Outcome) : Outcome :=
  match s.highlighter.row? number with
  | some row => go row
  | none => s.fail (.noSuchLine number)

/-! ### Commands -/

/-- **What a command does.** -/
def step (s : Session) : Command → Outcome
  | .setConfig given => s.configure s given
  | .resetConfig => (s.activate .default).answer .done
  | .enterConfig given => s.configure s.save given
  | .exitConfig => s.exitConfig
  | .showConfig => s.answer (.config s.config)
  | .enterProfile => answer { s with profiles := {} :: s.profiles } .done
  | .exitProfile => s.exitProfile
  | .showProfile => s.answer (.profile s.profiles.head?)
  | .record chars tokens => (s.record chars tokens).answer .done
  | .newStack name stack => (s.newStack name stack).answer .done
  | .copyStack source target =>
    s.withCell source fun cell => (s.newStack target (s.cell cell)).answer .done
  | .showStack name => s.withCell name fun cell => s.answer (.stack (s.cell cell))
  | .sameStacks a b =>
    s.withCell a fun cellA => s.withCell b fun cellB =>
      s.answer (.truth (s.cell cellA == s.cell cellB))
  | .run job => s.withCarrier job fun carrier => s.run job carrier
  | .openScan name job =>
    s.withCarrier job fun carrier => (s.putScan name ⟨job.scan, carrier⟩).answer .done
  | .pull name count =>
    if count = 0 then s.answer (.batch [] false)
    else s.withScan name fun running => s.pull name count running
  | .closeScan name =>
    s.withScan name fun running =>
      (s.putScan name { running with scan := running.scan.close }).answer .done
  | .newHighlighter mode startFault =>
    answer { s with highlighter := .new mode, startFault := startFault } .done
  | .update lines first => s.update lines first
  | .showTokens number => s.withRow number fun row => s.answer (.tokens row.tokens)
  | .showRowStack number saveAs =>
    s.withRow number fun row =>
      match saveAs with
      | none => s.answer (.stack row.stack)
      | some name => (s.newStack name row.stack).answer (.stack row.stack)
  | .showAllTokens => s.answer (.tokens s.highlighter.allTokens)
  | .showRowStacks => s.answer (.perLine (s.highlighter.rows.map Row.stack))
  | .showLines => s.answer (.lines s.highlighter.lines)
  | .countLines => s.answer (.count s.highlighter.lines.length)

/-- What a command comes to that a host may have stated wrongly. -/
def attempt (s : Session) : Except CommandFault Command → Outcome
  | .ok command => s.step command
  | .error fault => s.fail fault

def steps : Session → List (Except CommandFault Command) → List Outcome
  | _, [] => []
  | s, command :: rest => s.attempt command :: steps (s.attempt command).session rest

end Session

end ChipHighlight
