import ChipHighlight.Proofs.Session.Parties

/-!
# What a command can do

Some commands enter and leave scopes, set the configuration of the innermost one, or count
in its profile on behalf of the host.  They reach nothing else (`step_scopes`).  All others
work within the scopes that are open, and `Effect` says once what they can do: nothing, put a
stack or a scan under a name, read with a scan or at once, or exchange or update the
highlighter (`effect_step`).  None of it touches a configuration, and the innermost profile
counts the events.

So the configurations change by the commands for configurations only (`configs_step`), a
profile follows the events unless a command is for profiles (`profiles_step`), and a scan is
found as it was left (`get?_scans_step`).
-/

namespace ChipHighlight

namespace Command

def reachesConfigs : Command → Bool
  | setConfig _ | resetConfig | enterConfig _ | exitConfig => true
  | _ => false

def reachesProfiles : Command → Bool
  | enterProfile | exitProfile | record _ _ => true
  | _ => false

def reachesScopes (command : Command) : Bool := command.reachesConfigs || command.reachesProfiles

@[simp] theorem isFor_pull (name : Text) (n : Nat) : (pull name n).isFor (.scan name) = true :=
  decide_eq_true rfl

@[simp] theorem isFor_closeScan (name : Text) : (closeScan name).isFor (.scan name) = true :=
  decide_eq_true rfl

end Command

namespace Session

/-! ### Effects -/

/-- **What a command that works within the scopes can do**, and what it then comes to. -/
inductive Effect (s : Session) : Command → Outcome → Prop
  | nothing (command : Command) (reply : Except CommandFault Reply) :
      Effect s command ⟨s, reply, []⟩
  | stacked (command : Command) (name : Text) (stack : Stack) (reply : Reply) :
      Effect s command ((s.newStack name stack).answer reply)
  | opened (name : Text) (job : Job) (carrier : Carrier) :
      Effect s (.openScan name job) ((s.putScan name ⟨job.scan, carrier⟩).answer .done)
  | closed (name : Text) (running : OpenScan) :
      Effect s (.closeScan name)
        ((s.putScan name { running with scan := running.scan.close }).answer .done)
  | pulled (name : Text) (n : Nat) (running : OpenScan) :
      Effect s (.pull name n) (s.pull name n running)
  | ran (job : Job) (carrier : Carrier) : Effect s (.run job) (s.run job carrier)
  | made (mode : Mode) (fault : Option CommandFault) :
      Effect s (.newHighlighter mode fault)
        (answer { s with highlighter := .new mode, startFault := fault } .done)
  | rejected (lines : List Text) (first : Int) (fault : CommandFault) :
      Effect s (.update lines first) ⟨s, .error fault, s.highlighter.startEvents first⟩
  | updated (lines : List Text) (first : Int) (update : Update) :
      Effect s (.update lines first)
        (report { s with highlighter := update.highlighter } (.count update.scanned) update.events)

section

variable {s : Session} {command : Command}

theorem effect_withCell {name : Text} {go : Nat → Outcome}
    (found : ∀ cell, s.Effect command (go cell)) : s.Effect command (s.withCell name go) := by
  unfold withCell
  split
  · exact found _
  · exact .nothing command _

theorem effect_withCarrier {job : Job} {go : Carrier → Outcome}
    (found : ∀ carrier, s.Effect command (go carrier)) :
    s.Effect command (s.withCarrier job go) := by
  unfold withCarrier
  split
  · exact found _
  · exact effect_withCell fun cell => found (.shared cell)

theorem effect_withScan {name : Text} {go : OpenScan → Outcome}
    (found : ∀ running, s.Effect command (go running)) :
    s.Effect command (s.withScan name go) := by
  unfold withScan
  split
  · exact found _
  · exact .nothing command _

theorem effect_withRow {number : Int} {go : Row → Outcome}
    (found : ∀ row, s.Effect command (go row)) : s.Effect command (s.withRow number go) := by
  unfold withRow
  split
  · exact found _
  · exact .nothing command _

/-- **All that a command for scopes can do**: it exchanges configurations and profiles. -/
theorem step_scopes (s : Session) (h : command.reachesScopes = true) :
    ∃ config saved profiles reply,
      s.step command =
        ⟨{ s with config := config, saved := saved, profiles := profiles }, reply, []⟩ := by
  cases command with
  | setConfig given | enterConfig given =>
    rw [step, configure]
    split <;> exact ⟨_, _, _, _, rfl⟩
  | exitConfig =>
    rw [step, exitConfig]
    split <;> exact ⟨_, _, _, _, rfl⟩
  | exitProfile =>
    rw [step, exitProfile]
    split <;> exact ⟨_, _, _, _, rfl⟩
  | record chars tokens =>
    rw [step, record]
    split <;> exact ⟨_, _, _, _, rfl⟩
  | resetConfig | enterProfile => exact ⟨_, _, _, _, rfl⟩
  | _ => cases h

/-- **All that a command within the scopes can do.** -/
theorem effect_step (h : command.reachesScopes = false) : s.Effect command (s.step command) := by
  cases command with
  | setConfig _ | resetConfig | enterConfig _ | exitConfig | enterProfile | exitProfile
  | record _ _ => cases h
  | newStack name stack => exact .stacked _ name stack .done
  | copyStack source target =>
    exact effect_withCell fun cell => .stacked _ target (s.cell cell) .done
  | showStack name => exact effect_withCell fun _ => .nothing _ _
  | sameStacks a b => exact effect_withCell fun _ => effect_withCell fun _ => .nothing _ _
  | run job => exact effect_withCarrier fun carrier => .ran job carrier
  | openScan name job => exact effect_withCarrier fun carrier => .opened name job carrier
  | pull name n =>
    rw [step]
    split
    · exact .nothing _ _
    · exact effect_withScan fun running => .pulled name n running
  | closeScan name => exact effect_withScan fun running => .closed name running
  | newHighlighter mode fault => exact .made mode fault
  | update lines first =>
    rw [step, update]
    split
    · exact .rejected lines first _
    · exact .updated lines first _
  | showTokens number => exact effect_withRow fun _ => .nothing _ _
  | showRowStack number saveAs =>
    refine effect_withRow fun row => ?_
    cases saveAs with
    | none => exact .nothing _ _
    | some name => exact .stacked _ name row.stack _
  | showConfig | showProfile | showAllTokens | showRowStacks | showLines | countLines =>
    exact .nothing _ _

/-! ### What stays as it is -/

theorem profiles_note (s : Session) (events : List Event) :
    (s.note events).profiles = s.profiles.modifyHead (·.follow events) := by
  unfold note
  split
  · rename_i h
    rw [h]
    rfl
  · rename_i h
    rw [h]
    rfl

theorem note_congr (s : Session) {events others : List Event}
    (h : ∀ profile : Profile, profile.follow events = profile.follow others) :
    s.note events = s.note others := by
  unfold note
  cases s.profiles with
  | nil => rfl
  | cons profile outer =>
    dsimp only
    rw [h profile]

theorem config_leave (s : Session) (stack : Stack) (carrier : Carrier) :
    (s.leave stack carrier).config = s.config := by cases carrier <;> rfl

theorem saved_leave (s : Session) (stack : Stack) (carrier : Carrier) :
    (s.leave stack carrier).saved = s.saved := by cases carrier <;> rfl

/-- **An outcome within the scopes**: the configurations are as they were, and the innermost
profile, if there is one, counts the events. -/
structure InScope (s : Session) (outcome : Outcome) : Prop where
  config_eq : outcome.session.config = s.config
  saved_eq : outcome.session.saved = s.saved
  profiles_eq : outcome.session.profiles = s.profiles.modifyHead (·.follow outcome.events)

theorem inScope_of_no_events {outcome : Outcome} (hevents : outcome.events = [])
    (hconfig : outcome.session.config = s.config) (hsaved : outcome.session.saved = s.saved)
    (hprofiles : outcome.session.profiles = s.profiles) : s.InScope outcome := by
  refine ⟨hconfig, hsaved, ?_⟩
  rw [hprofiles, hevents]
  cases s.profiles <;> rfl

theorem inScope_report {t : Session} (hconfig : t.config = s.config) (hsaved : t.saved = s.saved)
    (hprofiles : t.profiles = s.profiles) (reply : Reply) (events : List Event) :
    s.InScope (t.report reply events) := by
  have hnote : (t.report reply events).session = t.note events := rfl
  refine ⟨?_, ?_, ?_⟩
  · rw [hnote, note_eq]
    exact hconfig
  · rw [hnote, note_eq]
    exact hsaved
  · rw [hnote, profiles_note, hprofiles]
    rfl

theorem Effect.inScope {outcome : Outcome} (h : s.Effect command outcome) : s.InScope outcome := by
  cases h with
  | nothing | stacked | opened | closed | made => exact inScope_of_no_events rfl rfl rfl rfl
  | rejected lines first fault =>
    refine ⟨rfl, rfl, ?_⟩
    show s.profiles = s.profiles.modifyHead (·.follow (s.highlighter.startEvents first))
    -- a start that is not accepted is no line
    unfold Highlighter.startEvents
    split <;> cases s.profiles <;> rfl
  | pulled name n running =>
    let batch := running.scan.pull s.config.rules n (s.carried running.carrier)
    let further : OpenScan := ⟨batch.scan, running.carrier.holding batch.stack⟩
    exact inScope_report (s := s)
      (t := (s.leave batch.stack running.carrier).putScan name further)
      (config_leave ..) (saved_leave ..) (profiles_leave ..) _ _
  | ran job carrier =>
    let transcript := job.transcribe s.config.rules (s.carried carrier)
    exact inScope_report (s := s) (t := s.leave transcript.stack carrier)
      (config_leave ..) (saved_leave ..) (profiles_leave ..) _ _
  | updated lines first update =>
    exact inScope_report (s := s) (t := { s with highlighter := update.highlighter })
      rfl rfl rfl _ _

/-- **Configurations change by the commands for configurations only.** -/
theorem configs_step (s : Session) (h : command.reachesConfigs = false) :
    (s.step command).session.config = s.config ∧ (s.step command).session.saved = s.saved := by
  cases hprofiles : command.reachesProfiles with
  | true =>
    cases command with
    | enterProfile => exact ⟨rfl, rfl⟩
    | exitProfile =>
      rw [step, exitProfile]
      split <;> exact ⟨rfl, rfl⟩
    | record chars tokens =>
      rw [step, record]
      split <;> exact ⟨rfl, rfl⟩
    | _ => cases hprofiles
  | false =>
    have hscope := (effect_step (s := s) (Bool.or_eq_false_iff.mpr ⟨h, hprofiles⟩)).inScope
    exact ⟨hscope.config_eq, hscope.saved_eq⟩

/-- **The innermost profile follows the events**, unless a command is for profiles. -/
theorem profiles_step (s : Session) (h : command.reachesProfiles = false) :
    (s.step command).session.profiles =
      s.profiles.modifyHead (·.follow (s.step command).events) := by
  cases hconfigs : command.reachesConfigs with
  | true =>
    have hkept : (s.step command).session.profiles = s.profiles ∧ (s.step command).events = [] := by
      cases command with
      | setConfig given | enterConfig given =>
        rw [step, configure]
        split <;> exact ⟨rfl, rfl⟩
      | exitConfig =>
        rw [step, exitConfig]
        split <;> exact ⟨rfl, rfl⟩
      | resetConfig => exact ⟨rfl, rfl⟩
      | _ => cases hconfigs
    rw [hkept.1, hkept.2]
    cases s.profiles <;> rfl
  | false => exact (effect_step (Bool.or_eq_false_iff.mpr ⟨hconfigs, h⟩)).inScope.profiles_eq

/-! ### Scans under names -/

theorem scans_note (s : Session) (events : List Event) : (s.note events).scans = s.scans := by
  rw [note_eq]

theorem get?_scans_putScan_self (t : Session) (name : Text) (running : OpenScan) :
    (t.putScan name running).scans.get? name = some running :=
  (Registry.get?_put name name running t.scans).trans (if_pos rfl)

theorem get?_scans_putScan {name other : Text} (h : name ≠ other) (t : Session)
    (running : OpenScan) : (t.putScan other running).scans.get? name = t.scans.get? name :=
  (Registry.get?_put other name running t.scans).trans (if_neg h)

/-- **A scan is found as it was left**, unless a command opens another one under its name
or lets it go on. -/
theorem get?_scans_step {name : Text} (hopen : ∀ job, command ≠ .openScan name job)
    (hfor : command.isFor (.scan name) = false) :
    (s.step command).session.scans.get? name = s.scans.get? name := by
  cases hreach : command.reachesScopes with
  | true =>
    obtain ⟨_, _, _, _, hstep⟩ := s.step_scopes hreach
    rw [hstep]
  | false =>
    have heffect := effect_step (s := s) hreach
    generalize s.step command = outcome at heffect ⊢
    cases heffect with
    | nothing | stacked | made | rejected => rfl
    | opened other job carrier =>
      exact get?_scans_putScan (fun heq => hopen job (by rw [heq])) _ _
    | closed other running =>
      have hne : name ≠ other := by
        rintro rfl
        rw [Command.isFor_closeScan] at hfor
        cases hfor
      exact get?_scans_putScan hne _ _
    | pulled other n running =>
      have hne : name ≠ other := by
        rintro rfl
        rw [Command.isFor_pull] at hfor
        cases hfor
      let batch := running.scan.pull s.config.rules n (s.carried running.carrier)
      let left := s.leave batch.stack running.carrier
      let further : OpenScan := ⟨batch.scan, running.carrier.holding batch.stack⟩
      show ((left.putScan other further).note batch.events).scans.get? name = _
      rw [scans_note, get?_scans_putScan hne, scans_leave]
    | ran job carrier =>
      let transcript := job.transcribe s.config.rules (s.carried carrier)
      show ((s.leave transcript.stack carrier).note transcript.events).scans.get? name = _
      rw [scans_note, scans_leave]
    | updated lines first update =>
      show (note { s with highlighter := update.highlighter } update.events).scans.get? name = _
      rw [scans_note]

/-! ### Jobs and scans that are found -/

theorem step_run {job : Job} {carrier : Carrier} (h : s.Provides job carrier) :
    s.step (.run job) = s.run job carrier :=
  withCarrier_eq h fun carrier => s.run job carrier

theorem step_pull {name : Text} {running : OpenScan} (h : s.scans.get? name = some running)
    {n : Nat} (hn : n ≠ 0) : s.step (.pull name n) = s.pull name n running := by
  rw [step, if_neg hn]
  exact withScan_eq h fun running => s.pull name n running

theorem get?_scans_pull (s : Session) (name : Text) (n : Nat) (running : OpenScan) :
    let batch := running.scan.pull s.config.rules n (s.carried running.carrier)
    (s.pull name n running).session.scans.get? name =
      some ⟨batch.scan, running.carrier.holding batch.stack⟩ := by
  intro batch
  let further : OpenScan := ⟨batch.scan, running.carrier.holding batch.stack⟩
  let left := s.leave batch.stack running.carrier
  show ((left.putScan name further).note batch.events).scans.get? name = some further
  rw [scans_note, get?_scans_putScan_self]

theorem step_closeScan {name : Text} {running : OpenScan} (h : s.scans.get? name = some running) :
    s.step (.closeScan name) =
      (s.putScan name { running with scan := running.scan.close }).answer .done :=
  withScan_eq h fun running =>
    (s.putScan name { running with scan := running.scan.close }).answer .done

end

end Session

end ChipHighlight
