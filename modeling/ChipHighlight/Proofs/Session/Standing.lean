import ChipHighlight.Proofs.Scan.AtOnce
import ChipHighlight.Proofs.Session.Cells

/-!
# Where a scan stands

`Stands` says where a scan of a session stands: which cell it shares, what is open, and
which moments it still comes to.  That is all that its next batch depends on, and a
session that leaves the rules, the scan and its stack alone leaves it standing there
(`Stands.of_spares`).  A scan that is opened stands at the beginning of its job, and asking
it for `n` tokens takes the moments up to the `n`-th token (`Stands.pull`).
-/

namespace ChipHighlight

def Carrier.cell? : Carrier → Option Nat
  | own _ => none
  | shared cell => some cell

@[simp] theorem Carrier.cell?_holding (carrier : Carrier) (stack : Stack) :
    (carrier.holding stack).cell? = carrier.cell? := by cases carrier <;> rfl

namespace Session

variable {s t : Session} {name : Text} {home : Option Nat} {stack : Stack} {moments : List Moment}

/-! ### Where a scan stands -/

/-- **Where a scan stands**: the cell that it shares if it does, what is open, and what it
still comes to. -/
def Stands (s : Session) (name : Text) (home : Option Nat) (stack : Stack)
    (moments : List Moment) : Prop :=
  ∃ running, s.scans.get? name = some running ∧ running.carrier.cell? = home ∧
    s.carried running.carrier = stack ∧ running.scan.moments s.config.rules stack = moments

/-- **A session that leaves a scan alone**: the rules, the scan and its stack are as before. -/
structure Spares (s : Session) (name : Text) (t : Session) : Prop where
  rules_eq : t.config.rules = s.config.rules
  scan_eq : t.scans.get? name = s.scans.get? name
  stack_eq : ∀ running, s.scans.get? name = some running →
    t.carried running.carrier = s.carried running.carrier

theorem Stands.of_spares (h : s.Stands name home stack moments) (hspares : s.Spares name t) :
    t.Stands name home stack moments := by
  obtain ⟨running, hscan, hhome, hstack, hmoments⟩ := h
  refine ⟨running, ?_, hhome, ?_, ?_⟩
  · rw [hspares.scan_eq, hscan]
  · rw [hspares.stack_eq running hscan, hstack]
  · rw [hspares.rules_eq, hmoments]

theorem Stands.cell_eq (h : s.Stands name home stack moments) {cell : Nat}
    (hcell : home = some cell) : s.cell cell = stack := by
  obtain ⟨running, -, hhome, hstack, -⟩ := h
  rw [hcell] at hhome
  cases hcarrier : running.carrier with
  | own _ =>
    rw [hcarrier] at hhome
    cases hhome
  | shared other =>
    rw [hcarrier] at hhome hstack
    cases hhome
    exact hstack

theorem exists_provides {job : Job}
    (h : (s.step (.openScan name job)).reply = .ok .done) : ∃ carrier, s.Provides job carrier := by
  cases hname : job.stackName? with
  | none => exact ⟨_, .own hname⟩
  | some shared =>
    cases hcell : s.names.get? shared with
    | some cell => exact ⟨_, .shared hname hcell⟩
    | none =>
      have hstep : s.step (.openScan name job) = s.fail (.unknownName shared) := by
        rw [step, withCarrier, hname]
        dsimp only
        rw [withCell, hcell]
      rw [hstep] at h
      cases h

theorem step_openScan {job : Job} {carrier : Carrier} (h : s.Provides job carrier) :
    s.step (.openScan name job) = (s.putScan name ⟨job.scan, carrier⟩).answer .done :=
  withCarrier_eq h fun carrier => (s.putScan name ⟨job.scan, carrier⟩).answer .done

/-- **A scan that was just opened** stands at its beginning. -/
theorem stands_openScan {job : Job} {carrier : Carrier} (h : s.Provides job carrier) :
    (s.step (.openScan name job)).session.Stands name carrier.cell? (s.carried carrier)
      (job.moments s.config.rules (s.carried carrier)) := by
  rw [step_openScan h]
  have hput := Registry.get?_put name name ⟨job.scan, carrier⟩ s.scans
  rw [if_pos rfl] at hput
  exact ⟨_, hput, rfl, by cases carrier <;> rfl, rfl⟩

/-! ### Profiles -/

theorem head?_profiles_note (s : Session) (events : List Event) :
    (s.note events).profiles.head? = s.profiles.head?.map (·.follow events) := by
  unfold note
  split
  · rename_i h
    rw [h]
    rfl
  · rename_i h
    rw [h]
    rfl

theorem map_follow_nil (profile : Option Profile) : profile.map (·.follow []) = profile := by
  cases profile <;> rfl

theorem map_follow_append (profile : Option Profile) (events more : List Event) :
    (profile.map (·.follow events)).map (·.follow more) =
      profile.map (·.follow (events ++ more)) := by
  cases profile with
  | none => rfl
  | some profile => exact congrArg some (Profile.follow_append profile events more).symm

theorem profiles_leave (s : Session) (stack : Stack) (carrier : Carrier) :
    (s.leave stack carrier).profiles = s.profiles := by cases carrier <;> rfl

/-! ### Asking for tokens -/

/-- **Asking for `n` tokens** takes the moments up to the `n`-th token. -/
theorem Stands.pull (hs : s.Sound) (h : s.Stands name home stack moments) (n : Nat) :
    let taken := Moment.upTo n moments
    let outcome := s.step (.pull name n)
    outcome.reply =
        .ok (.batch (Moment.tokens taken) (decide ((Moment.tokens moments).length < n))) ∧
      outcome.events = Moment.events taken ∧
      outcome.session.Stands name home (Moment.stackAfter stack taken) (Moment.beyond n moments) ∧
      outcome.session.profiles.head? =
        s.profiles.head?.map (·.follow (Moment.events taken)) := by
  intro taken outcome
  cases n with
  | zero =>
    have htaken : taken = [] := Moment.upTo_zero moments
    rw [htaken, Moment.beyond_zero]
    exact ⟨rfl, rfl, h, (map_follow_nil _).symm⟩
  | succ n =>
    obtain ⟨running, hscan, rfl, rfl, rfl⟩ := h
    have hpull : outcome = s.pull name (n + 1) running :=
      withScan_eq hscan fun running => s.pull name (n + 1) running
    let batch := running.scan.pull s.config.rules (n + 1) (s.carried running.carrier)
    have htakes : batch.Takes s.config.rules (n + 1) _ _ := Scan.takes_pull ..
    let further : OpenScan := ⟨batch.scan, running.carrier.holding batch.stack⟩
    let left := (s.leave batch.stack running.carrier).putScan name further
    have hreport : outcome = left.report (.batch batch.tokens batch.finished) batch.events := hpull
    have hwithin := hs.scans_within name running hscan
    have hfound : left.scans.get? name = some further :=
      (Registry.get?_put name name further _).trans (if_pos rfl)
    have hrules : left.config = s.config := by
      show (s.leave batch.stack running.carrier).config = s.config
      cases running.carrier <;> rfl
    rw [hreport]
    refine ⟨?_, htakes.events_eq, ?_, ?_⟩
    · show Except.ok (Reply.batch batch.tokens batch.finished) = _
      rw [htakes.tokens_eq, htakes.finished_eq]
    · show (left.note batch.events).Stands _ _ _ _
      rw [note_eq]
      refine ⟨further, hfound, Carrier.cell?_holding _ _, ?_, ?_⟩
      · exact (carried_leave s batch.stack hwithin).trans htakes.stack_eq
      · show Scan.moments left.config.rules _ batch.scan = _
        rw [hrules, ← htakes.stack_eq]
        exact htakes.moments_eq
    · show (left.note batch.events).profiles.head? = _
      have hprofiles : left.profiles = s.profiles := profiles_leave ..
      rw [head?_profiles_note, htakes.events_eq, hprofiles]

theorem Stands.closeScan (h : s.Stands name home stack moments) :
    let outcome := s.step (.closeScan name)
    outcome.reply = .ok .done ∧ outcome.events = [] ∧
      outcome.session.Stands name home stack [] := by
  intro outcome
  obtain ⟨running, hscan, hhome, hstack, -⟩ := h
  let closed : OpenScan := { running with scan := running.scan.close }
  have hclose : outcome = (s.putScan name closed).answer .done :=
    withScan_eq hscan fun running =>
      (s.putScan name { running with scan := running.scan.close }).answer .done
  have hfound : (s.putScan name closed).scans.get? name = some closed :=
    (Registry.get?_put name name closed s.scans).trans (if_pos rfl)
  rw [hclose]
  exact ⟨rfl, rfl, closed, hfound, hhome, hstack, Scan.moments_close _ _ _⟩

end Session

end ChipHighlight
