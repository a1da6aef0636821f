import ChipHighlight.Proofs.Session.Alone
import ChipHighlight.Proofs.Session.Scopes

/-!
# Scopes that were left

A scope that was entered and left again is as if it had not been there: whatever went on
inside, the configuration or the profile that was active before is active again
(`scopes_restored`).  Configurations that are the same stay the same, whatever happens
afterwards (`SameConfigs.step`), and whoever begins outside of literals finds nothing else
of what was left behind (`SameConfigs.beginsAlike`).
-/

namespace ChipHighlight

namespace Session

/-! ### The same configurations -/

/-- **Two sessions with the same configurations**, the active one and those to restore. -/
structure SameConfigs (s t : Session) : Prop where
  config_eq : s.config = t.config
  saved_eq : s.saved = t.saved

variable {s t : Session}

theorem SameConfigs.configure (h : s.SameConfigs t) {s' t' : Session} (h' : s'.SameConfigs t')
    (given : Setting) : (s.configure s' given).session.SameConfigs (t.configure t' given).session := by
  unfold Session.configure
  split
  · exact ⟨rfl, h'.saved_eq⟩
  · exact h

/-- **Every command keeps the configurations the same.** -/
theorem SameConfigs.step (h : s.SameConfigs t) (command : Command) :
    (s.step command).session.SameConfigs (t.step command).session := by
  cases hreach : command.reachesConfigs with
  | true =>
    cases command with
    | setConfig given => exact h.configure h given
    | resetConfig => exact ⟨rfl, h.saved_eq⟩
    | enterConfig given =>
      have hsave : s.save.SameConfigs t.save :=
        ⟨h.config_eq, congrArg₂ List.cons h.config_eq h.saved_eq⟩
      exact h.configure hsave given
    | exitConfig =>
      rw [Session.step, Session.step, exitConfig, exitConfig, ← h.saved_eq]
      split
      · exact h
      · exact ⟨rfl, rfl⟩
    | _ => cases hreach
  | false =>
    obtain ⟨hconfig, hsaved⟩ := s.configs_step hreach
    obtain ⟨tconfig, tsaved⟩ := t.configs_step hreach
    exact ⟨hconfig.trans (h.config_eq.trans tconfig.symm),
      hsaved.trans (h.saved_eq.trans tsaved.symm)⟩

theorem SameConfigs.afterAll (h : s.SameConfigs t) (attempts : List (Except CommandFault Command)) :
    (s.afterAll attempts).SameConfigs (t.afterAll attempts) := by
  rw [afterAll_eq_after, afterAll_eq_after]
  generalize Command.stated attempts = commands
  induction commands generalizing s t with
  | nil => exact h
  | cons command rest ih => exact ih (h.step command)

/-! ### Whoever begins outside of literals -/

/-- **Two sessions in which new readings come to the same**, if they begin outside of
literals or with a stack that is put under a name for them: jobs that are run at once, and
scans, whatever else goes on between their steps. -/
structure BeginsAlike (s t : Session) : Prop where
  run : ∀ job, job.stackName? = none →
    (s.step (.run job)).reply = (t.step (.run job)).reply ∧
      (s.step (.run job)).events = (t.step (.run job)).events
  run_newStack : ∀ job name stack, job.stackName? = some name →
    ((s.step (.newStack name stack)).session.step (.run job)).reply =
        ((t.step (.newStack name stack)).session.step (.run job)).reply ∧
      ((s.step (.newStack name stack)).session.step (.run job)).events =
        ((t.step (.newStack name stack)).session.step (.run job)).events
  scan : ∀ job name commands, job.stackName? = none → (∀ other, .openScan name other ∉ commands) →
    (s.step (.openScan name job)).session.heard (.scan name) commands =
      (t.step (.openScan name job)).session.heard (.scan name) commands

theorem cell_newStack (s : Session) (name : Text) (stack : Stack) :
    (s.newStack name stack).names.get? name = some s.cells.length ∧
      (s.newStack name stack).cell s.cells.length = stack := by
  constructor
  · exact (Registry.get?_put name name _ _).trans (if_pos rfl)
  · show ((s.cells ++ [stack])[s.cells.length]?).getD [] = stack
    rw [List.getElem?_concat_length]
    rfl

/-- The scan of a name has a stack of its own. -/
def OwnScan (s : Session) (name : Text) (scan : Scan) (stack : Stack) : Prop :=
  s.scans.get? name = some ⟨scan, .own stack⟩

theorem OwnScan.pull {name : Text} {scan : Scan} {stack : Stack} (h : s.OwnScan name scan stack)
    {n : Nat} (hn : n ≠ 0) :
    let batch := scan.pull s.config.rules n stack
    let outcome := s.step (.pull name n)
    outcome.reply = .ok (.batch batch.tokens batch.finished) ∧ outcome.events = batch.events ∧
      outcome.session.OwnScan name batch.scan batch.stack := by
  intro batch outcome
  have hstep : outcome = s.pull name n ⟨scan, .own stack⟩ := step_pull h hn
  rw [hstep]
  exact ⟨rfl, rfl, get?_scans_pull s name n ⟨scan, .own stack⟩⟩

theorem OwnScan.closeScan {name : Text} {scan : Scan} {stack : Stack}
    (h : s.OwnScan name scan stack) :
    let outcome := s.step (.closeScan name)
    outcome.reply = .ok .done ∧ outcome.events = [] ∧
      outcome.session.OwnScan name scan.close stack := by
  intro outcome
  have hstep : outcome = (s.putScan name ⟨scan.close, .own stack⟩).answer .done :=
    step_closeScan h
  rw [hstep]
  exact ⟨rfl, rfl, get?_scans_putScan_self ..⟩

theorem OwnScan.heard_eq {name : Text} {scan : Scan} {stack : Stack} {commands : List Command}
    (hsame : s.SameConfigs t) (hs : s.OwnScan name scan stack) (ht : t.OwnScan name scan stack)
    (hopen : ∀ other, .openScan name other ∉ commands) :
    s.heard (.scan name) commands = t.heard (.scan name) commands := by
  induction commands generalizing s t scan stack with
  | nil => rfl
  | cons command rest ih =>
    have hrest : ∀ other, .openScan name other ∉ rest :=
      fun other hmem => hopen other (List.mem_cons_of_mem command hmem)
    have hstep := hsame.step command
    rw [heard, heard]
    cases hfor : command.isFor (.scan name) with
    | true =>
      rw [if_pos rfl, if_pos rfl]
      rcases isFor_scan hfor with ⟨n, rfl⟩ | rfl
      · by_cases hn : n = 0
        · subst hn
          exact congrArg _ (ih hstep hs ht hrest)
        · obtain ⟨hreply, hevents, hown⟩ := hs.pull hn
          obtain ⟨treply, tevents, town⟩ := ht.pull hn
          rw [← hsame.config_eq] at treply tevents town
          rw [hreply, hevents, treply, tevents, ih hstep hown town hrest]
      · obtain ⟨hreply, hevents, hown⟩ := hs.closeScan
        obtain ⟨treply, tevents, town⟩ := ht.closeScan
        rw [hreply, hevents, treply, tevents, ih hstep hown town hrest]
    | false =>
      rw [if_neg Bool.false_ne_true, if_neg Bool.false_ne_true]
      have hne : ∀ other, command ≠ .openScan name other := by
        rintro other rfl
        exact hopen other List.mem_cons_self
      have hown : (s.step command).session.OwnScan name scan stack :=
        (get?_scans_step hne hfor).trans hs
      have town : (t.step command).session.OwnScan name scan stack :=
        (get?_scans_step hne hfor).trans ht
      exact ih hstep hown town hrest

/-- **New readings depend on the configurations only.** -/
theorem SameConfigs.beginsAlike (h : s.SameConfigs t) : s.BeginsAlike t where
  run job hjob := by
    rw [step_run (.own hjob), step_run (.own hjob), Session.run, Session.run, h.config_eq]
    exact ⟨rfl, rfl⟩
  run_newStack job name stack hjob := by
    obtain ⟨hname, hcell⟩ := cell_newStack s name stack
    obtain ⟨tname, tcell⟩ := cell_newStack t name stack
    have hs : (s.newStack name stack).step (.run job) = _ := step_run (.shared hjob hname)
    have ht : (t.newStack name stack).step (.run job) = _ := step_run (.shared hjob tname)
    have hconfig : (s.newStack name stack).config = (t.newStack name stack).config := h.config_eq
    show ((s.newStack name stack).step (.run job)).reply =
        ((t.newStack name stack).step (.run job)).reply ∧
      ((s.newStack name stack).step (.run job)).events =
        ((t.newStack name stack).step (.run job)).events
    rw [hs, ht, Session.run, Session.run, carried, carried, hcell, tcell, hconfig]
    exact ⟨rfl, rfl⟩
  scan job name commands hjob hopen := by
    have hs : s.step (.openScan name job) = _ := step_openScan (.own hjob)
    have ht : t.step (.openScan name job) = _ := step_openScan (.own hjob)
    have hsame := h.step (.openScan name job)
    have hown : ∀ u : Session, (u.putScan name ⟨job.scan, .own []⟩).OwnScan name job.scan [] :=
      fun u => get?_scans_putScan_self ..
    rw [hs, ht] at hsame ⊢
    exact OwnScan.heard_eq hsame (hown s) (hown t) hopen

/-! ### Scopes that were left -/

/-- **Scopes are restored exactly.**  Whatever went on inside, leaving a scope that was
entered makes active again what was active before, and nobody who begins afresh can tell
that it was there.  Entering and leaving a scope of one kind does not touch the other. -/
theorem scopes_restored (s : Session) (body later : List (Except CommandFault Command)) :
    (∀ given, (s.step (.enterConfig given)).reply = .ok .done →
      Scope.config.Balanced (Command.stated body) →
      let inside := (s.step (.enterConfig given)).session.afterAll body
      let outcome := inside.step .exitConfig
      outcome.reply = .ok .done ∧ outcome.session.config = s.config ∧
        outcome.session.saved = s.saved ∧
        (outcome.session.afterAll later).BeginsAlike (s.afterAll later)) ∧
    (Scope.profile.Balanced (Command.stated body) →
      let inside := (s.step .enterProfile).session.afterAll body
      let outcome := inside.step .exitProfile
      (∃ profile, outcome.reply = .ok (.profile (some profile))) ∧
        outcome.session.profiles = s.profiles) ∧
    (∀ given, (s.step (.enterConfig given)).session.profiles = s.profiles) ∧
    (s.step .exitConfig).session.profiles = s.profiles ∧
    (∀ command ∈ [Command.enterProfile, .exitProfile],
      (s.step command).session.config = s.config ∧ (s.step command).session.saved = s.saved) := by
  refine ⟨?_, ?_, ?_, ?_, ?_⟩
  · intro given hreply hbalanced inside outcome
    obtain ⟨entered, hentered⟩ := piles_config.enter s _ (isOk_of_done hreply)
    have hpile := piles_config.after hbalanced hentered
    rw [← afterAll_eq_after] at hpile
    have hsaved : inside.saved = s.config :: s.saved := (List.cons.inj hpile).2
    have houtcome : outcome = _ := step_exitConfig hsaved
    have hsame : outcome.session.SameConfigs s := by
      rw [houtcome]
      exact ⟨rfl, rfl⟩
    refine ⟨?_, hsame.config_eq, hsame.saved_eq, (hsame.afterAll later).beginsAlike⟩
    rw [houtcome]
    rfl
  · intro hbalanced inside outcome
    have houtcome : outcome = _ := exitProfile_afterAll s hbalanced
    rw [houtcome]
    exact ⟨⟨_, rfl⟩, rfl⟩
  · intro given
    rw [step, configure]
    split <;> rfl
  · rw [step, exitConfig]
    split <;> rfl
  · intro command hcommand
    apply configs_step
    rcases List.mem_cons.mp hcommand with rfl | hcommand
    · rfl
    · cases List.mem_singleton.mp hcommand
      rfl

/-- A document is read with lenient sharps inside of both kinds of scopes, and outside of
them as if they had not been there. -/
theorem restored_around_lenient_document :
    let lenient : Setting := .object [(Config.lenientSharpsField, .bool true)]
    let document : Job := .document .blip false "b#".toList
    let body : List (Except CommandFault Command) :=
      [.ok .enterProfile, .ok (.run document), .error (.noStyle .null), .ok .exitProfile,
        .ok (.enterConfig lenient), .ok .resetConfig, .ok .exitConfig, .ok (.pull "a".toList 1)]
    let s : Session := {}
    let inside := (s.step (.enterConfig lenient)).session.afterAll body
    let counted := (s.step .enterProfile).session.afterAll body
    (s.step (.enterConfig lenient)).reply = .ok .done ∧
      Scope.config.Balanced (Command.stated body) ∧ Scope.profile.Balanced (Command.stated body) ∧
      inside.config.rules.lenient = true ∧
      (inside.step .exitConfig).session.config = .default ∧
      ((inside.step .exitConfig).session.step (.run document)).reply =
        (s.step (.run document)).reply ∧
      (counted.step .exitProfile).session.profiles = [] := by
  intro lenient document body s inside counted
  have hentered : (s.step (.enterConfig lenient)).reply = .ok .done := rfl
  have hconfigs : Scope.config.Balanced (Command.stated body) := by decide +kernel
  have hprofiles : Scope.profile.Balanced (Command.stated body) := by decide +kernel
  obtain ⟨hconfig, hprofile, -⟩ := scopes_restored s body []
  obtain ⟨-, hactive, -, hafter⟩ := hconfig lenient hentered hconfigs
  refine ⟨hentered, hconfigs, hprofiles, by decide +kernel, hactive, ?_, ?_⟩
  · exact (hafter.run document rfl).1
  · exact (hprofile hprofiles).2

end Session

end ChipHighlight
