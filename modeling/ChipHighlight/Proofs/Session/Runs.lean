import ChipHighlight.Session.Basic

/-!
# Runs of a session

A host gives one command after the other, and each finds the session that the one before
it left.  What every command keeps, a whole run keeps (`after_induction`).

Many commands look something up and fail without it, which changes nothing.  What holds of
the session before, and after going on with whatever was found, holds in either case
(`withCell_session` and the like).
-/

namespace ChipHighlight.Session

def after (s : Session) (commands : List Command) : Session :=
  commands.foldl (fun s command => (s.step command).session) s

@[simp] theorem after_cons (s : Session) (command : Command) (commands : List Command) :
    s.after (command :: commands) = (s.step command).session.after commands := rfl

/-- **Induction along a run.** -/
theorem after_induction {motive : Session → Prop} {s : Session} {commands : List Command}
    (start : motive s)
    (step : ∀ t, ∀ command ∈ commands, motive t → motive (t.step command).session) :
    motive (s.after commands) := by
  induction commands generalizing s with
  | nil => exact start
  | cons command rest ih =>
    refine ih (step s command List.mem_cons_self start) ?_
    intro t other hother
    exact step t other (List.mem_cons_of_mem command hother)

/-! ### Commands that look something up -/

section

variable {s : Session} {P : Session → Prop}

theorem withCell_session {name : Text} {go : Nat → Outcome} (failed : P s)
    (found : ∀ cell, s.names.get? name = some cell → P (go cell).session) :
    P (s.withCell name go).session := by
  unfold withCell
  split
  · exact found _ ‹_›
  · exact failed

/-- The carrier that a session provides for a job: its own, or the cell of the stack that
the job names. -/
inductive Provides (s : Session) (job : Job) : Carrier → Prop
  | own : job.stackName? = none → Provides s job (.own [])
  | shared {name : Text} {cell : Nat} :
      job.stackName? = some name → s.names.get? name = some cell → Provides s job (.shared cell)

theorem withCarrier_session {job : Job} {go : Carrier → Outcome} (failed : P s)
    (found : ∀ carrier, s.Provides job carrier → P (go carrier).session) :
    P (s.withCarrier job go).session := by
  unfold withCarrier
  split
  · exact found _ (.own ‹_›)
  · exact withCell_session failed fun cell hcell => found _ (.shared ‹_› hcell)

theorem withCarrier_eq {job : Job} {carrier : Carrier} (h : s.Provides job carrier)
    (go : Carrier → Outcome) : s.withCarrier job go = go carrier := by
  unfold withCarrier
  cases h with
  | own hnone => rw [hnone]
  | shared hname hcell =>
    rw [hname]
    dsimp only
    rw [withCell, hcell]

theorem withScan_session {name : Text} {go : OpenScan → Outcome} (failed : P s)
    (found : ∀ running, s.scans.get? name = some running → P (go running).session) :
    P (s.withScan name go).session := by
  unfold withScan
  split
  · exact found _ ‹_›
  · exact failed

theorem withScan_eq {name : Text} {running : OpenScan} (h : s.scans.get? name = some running)
    (go : OpenScan → Outcome) : s.withScan name go = go running := by
  rw [withScan, h]

theorem withScan_eq_fail {name : Text} (h : s.scans.get? name = none) (go : OpenScan → Outcome) :
    s.withScan name go = s.fail (.unknownName name) := by
  rw [withScan, h]

theorem withRow_session {number : Int} {go : Row → Outcome} (failed : P s)
    (found : ∀ row, P (go row).session) : P (s.withRow number go).session := by
  unfold withRow
  split
  · exact found _
  · exact failed

end

end ChipHighlight.Session
