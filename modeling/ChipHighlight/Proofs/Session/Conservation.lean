import ChipHighlight.Proofs.Scan.Account
import ChipHighlight.Proofs.Session.Restored

/-!
# Profiles lose nothing

Whatever a session does, a line that is read to its end is counted once, and in the profile
that is the innermost at that moment.  Lines come to their ends in three ways: a job that is
run at once ends all of its lines, an update ends those that it reads again, and a scan ends
them one by one, under whatever profiles there are by then, and none of those that it gives up.
`CountsLines` says for each of the three which tallies it comes to, and that nothing else
counts a line.

Tallies go to the innermost profile and to no other.  So what a profile comes to in the end
is the sum of the tallies of the steps that found it on top (`profiles_conserved`).
-/

namespace ChipHighlight

/-- The commands that read lines, or count one that was read elsewhere. -/
def Command.counts : Command → Bool
  | record _ _ | run _ | pull _ _ | update _ _ => true
  | _ => false

def handedOut : Except CommandFault Reply → List Token
  | .ok (.tokens tokens) | .ok (.batch tokens _) => tokens
  | _ => []

namespace Session

variable {s : Session} {name : Text} {commands : List Command}

def tokensOf (party : Party) (s : Session) (commands : List Command) : List Token :=
  (s.heard party commands).flatMap fun heard => handedOut heard.1

def talliesOf (party : Party) (s : Session) (commands : List Command) : List Tally :=
  Tally.ofEvents (s.eventsOf party commands)

theorem tokensOf_cons (party : Party) (s : Session) (command : Command) (rest : List Command) :
    s.tokensOf party (command :: rest) =
      (if command.isFor party then handedOut (s.step command).reply else []) ++
        (s.step command).session.tokensOf party rest := by
  unfold tokensOf
  rw [heard]
  split <;> rfl

theorem talliesOf_cons (party : Party) (s : Session) (command : Command) (rest : List Command) :
    s.talliesOf party (command :: rest) =
      (if command.isFor party then Tally.ofEvents (s.step command).events else []) ++
        (s.step command).session.talliesOf party rest := by
  unfold talliesOf
  rw [eventsOf_cons, Tally.ofEvents_append]
  split <;> rfl

/-! ### Reading at once -/

theorem tallies_rows (mode : Mode) (rules : Rules) (keepGaps : Bool) (number : Int)
    (stack : Stack) (lines : List Text) :
    let rows := mode.rows rules keepGaps number stack lines
    Tally.ofEvents (Row.endings number lines rows) =
      Tally.ofLines (rows.flatMap Row.tokens) number lines :=
  Tally.ofEvents_endings (numbered_rows mode rules keepGaps number stack lines)
    (Mode.length_rows mode rules keepGaps number stack lines)

/-- **Reading again** comes to the rows of the lines that are read, in front of those that
are kept, and to the tallies of these lines. -/
theorem tallies_rescan (mode : Mode) (rules : Rules) (old : List Row) (shared : Nat)
    (shift number : Int) (stack : Stack) (lines : List Text) :
    let rescan := mode.rescan rules old shared shift number stack lines
    let again := lines.take rescan.scanned
    let rows := mode.rows rules false number stack again
    again.length = rescan.scanned ∧ (∃ kept, rescan.rows = rows ++ kept) ∧
      Tally.ofEvents rescan.events = Tally.ofLines (rows.flatMap Row.tokens) number again := by
  rcases rescan_cases mode rules old shared shift number stack lines with
    ⟨-, hall⟩ | ⟨n, kept, -, hlt, -, -, hsome⟩
  · rw [hall]
    dsimp only
    rw [List.take_length]
    exact ⟨rfl, ⟨[], (List.append_nil _).symm⟩, tallies_rows ..⟩
  · rw [hsome]
    dsimp only
    refine ⟨List.length_take_of_le (Nat.le_of_lt hlt), ⟨_, rfl⟩, ?_⟩
    rw [Tally.ofEvents_append, tallies_rows]
    exact List.append_nil _

theorem tallies_run (s : Session) (job : Job) :
    (∃ tokens, (s.step (.run job)).reply = .ok (.tokens tokens) ∧
      s.tallies (.run job) = Tally.ofLines tokens job.number job.lines) ∨
    ∃ fault, (s.step (.run job)).reply = .error fault ∧ s.tallies (.run job) = [] := by
  have htallies : s.tallies (.run job) = Tally.ofEvents (s.step (.run job)).events := rfl
  rw [htallies]
  have hfound : ∀ carrier, s.Provides job carrier →
      ∃ tokens, (s.step (.run job)).reply = .ok (.tokens tokens) ∧
        Tally.ofEvents (s.step (.run job)).events = Tally.ofLines tokens job.number job.lines := by
    intro carrier hcarrier
    let rows := job.rows s.config.rules (s.carried carrier)
    have htranscribe : job.transcribe s.config.rules (s.carried carrier) =
        .ofRows job.number (s.carried carrier) job.lines rows := by
      cases job <;> rfl
    rw [step_run hcarrier, Session.run, htranscribe]
    exact ⟨_, rfl, tallies_rows ..⟩
  cases hname : job.stackName? with
  | none => exact Or.inl (hfound _ (.own hname))
  | some shared =>
    cases hcell : s.names.get? shared with
    | some cell => exact Or.inl (hfound _ (.shared hname hcell))
    | none =>
      have hstep : s.step (.run job) = s.fail (.unknownName shared) := by
        rw [step, withCarrier, hname]
        dsimp only
        rw [withCell, hcell]
      rw [hstep]
      exact Or.inr ⟨_, rfl, rfl⟩

theorem tallies_update (hstart : s.startFault = none) (lines : List Text) (first : Int) :
    let old := s.highlighter.refresh s.config
    let start := old.startOf first lines
    let front := old.rows.take start
    let outcome := s.step (.update lines first)
    ∃ n kept,
      let again := (lines.drop start).take n
      let rows := old.mode.rows s.config.rules false (start + 1)
        (Row.stackAfter old.mode.start front) again
      again.length = n ∧ outcome.reply = .ok (.count n) ∧
        outcome.session.highlighter.rows = front ++ rows ++ kept ∧
        s.tallies (.update lines first) =
          Tally.ofLines (rows.flatMap Row.tokens) (start + 1) again := by
  intro old start front outcome
  let rescan := old.rescanFrom s.config.rules start lines
  let updated : Highlighter := { old with lines := lines, rows := front ++ rescan.rows }
  let events := s.highlighter.refreshEvents s.config ++ old.startEvents first ++ rescan.events
  obtain ⟨hlength, ⟨kept, hkept⟩, htallies⟩ := tallies_rescan old.mode s.config.rules old.rows
    (sharedEnd old.lines lines) (lines.length - old.lines.length) (start + 1)
    (Row.stackAfter old.mode.start front) (lines.drop start)
  have houtcome : outcome =
      report { s with highlighter := updated } (.count rescan.scanned) events :=
    step_update hstart lines first
  have hrows : outcome.session.highlighter.rows = front ++ rescan.rows := by
    rw [houtcome]
    show (note { s with highlighter := updated } events).highlighter.rows = _
    rw [note_eq]
  have hlog : Tally.ofEvents events = Tally.ofEvents rescan.events :=
    s.highlighter.tallies_update s.config lines first
  refine ⟨rescan.scanned, kept, hlength, ?_, ?_, ?_⟩
  · rw [houtcome]
    rfl
  · rw [hrows, List.append_assoc]
    exact congrArg (front ++ ·) hkept
  · show Tally.ofEvents outcome.events = _
    rw [houtcome]
    exact hlog.trans htallies

/-! ### Reading step by step -/

/-- Meeting the end comes to meeting it at once, or later in a scan that is not closed. -/
theorem meetsEnd_cons (command : Command) (rest : List Command) :
    s.MeetsEnd name (command :: rest) ↔
      (∃ n, command = .pull name n ∧ (s.step command).atEnd = true) ∨
        command ≠ .closeScan name ∧ (s.step command).session.MeetsEnd name rest := by
  constructor
  · rintro ⟨front, n, behind, heq, hopen, hend⟩
    cases front with
    | nil =>
      cases heq
      exact Or.inl ⟨n, rfl, hend⟩
    | cons other front =>
      cases heq
      have hne := List.ne_of_not_mem_cons hopen
      have hopen := List.not_mem_of_not_mem_cons hopen
      exact Or.inr ⟨hne.symm, front, n, behind, rfl, hopen, hend⟩
  · rintro (⟨n, rfl, hend⟩ | ⟨hne, front, n, behind, rfl, hopen, hend⟩)
    · exact ⟨[], n, rest, rfl, List.not_mem_nil, hend⟩
    · have hopen := List.not_mem_cons_of_ne_of_not_mem hne.symm hopen
      exact ⟨command :: front, n, behind, rfl, hopen, hend⟩

theorem not_meetsEnd_nil : ¬ s.MeetsEnd name [] := by
  rintro ⟨front, n, rest, heq, -⟩
  exact List.cons_ne_nil _ _ (List.append_eq_nil_iff.mp heq.symm).2

theorem heard_of_not_isFor {command : Command} (hfor : command.isFor (.scan name) = false)
    (rest : List Command) :
    s.tokensOf (.scan name) (command :: rest) =
        (s.step command).session.tokensOf (.scan name) rest ∧
      s.talliesOf (.scan name) (command :: rest) =
        (s.step command).session.talliesOf (.scan name) rest ∧
      (s.MeetsEnd name (command :: rest) ↔ (s.step command).session.MeetsEnd name rest) := by
  refine ⟨?_, ?_, ?_⟩
  · rw [tokensOf_cons, if_neg (by rw [hfor]; exact Bool.false_ne_true), List.nil_append]
  · rw [talliesOf_cons, if_neg (by rw [hfor]; exact Bool.false_ne_true), List.nil_append]
  · rw [meetsEnd_cons]
    constructor
    · rintro (⟨n, rfl, -⟩ | ⟨-, hmeets⟩)
      · simp at hfor
      · exact hmeets
    · intro hmeets
      refine Or.inr ⟨?_, hmeets⟩
      rintro rfl
      simp at hfor

theorem heard_pull_zero (s : Session) (name : Text) (rest : List Command) :
    s.tokensOf (.scan name) (.pull name 0 :: rest) = s.tokensOf (.scan name) rest ∧
      s.talliesOf (.scan name) (.pull name 0 :: rest) = s.talliesOf (.scan name) rest ∧
      (s.MeetsEnd name (.pull name 0 :: rest) ↔ s.MeetsEnd name rest) := by
  refine ⟨?_, ?_, ?_⟩
  · rw [tokensOf_cons, if_pos (Command.isFor_pull name 0)]
    rfl
  · rw [talliesOf_cons, if_pos (Command.isFor_pull name 0)]
    rfl
  · rw [meetsEnd_cons]
    simp [step, answer, Outcome.atEnd]

theorem heard_pull {running : OpenScan} (hscan : s.scans.get? name = some running) {n : Nat}
    (hn : n ≠ 0) (rest : List Command) :
    let batch := running.scan.pull s.config.rules n (s.carried running.carrier)
    let further := (s.pull name n running).session
    s.tokensOf (.scan name) (.pull name n :: rest) =
        batch.tokens ++ further.tokensOf (.scan name) rest ∧
      s.talliesOf (.scan name) (.pull name n :: rest) =
        Tally.ofEvents batch.events ++ further.talliesOf (.scan name) rest ∧
      (s.MeetsEnd name (.pull name n :: rest) ↔
        batch.finished = true ∨ further.MeetsEnd name rest) := by
  intro batch further
  refine ⟨?_, ?_, ?_⟩
  · rw [tokensOf_cons, if_pos (Command.isFor_pull name n), step_pull hscan hn]
    rfl
  · rw [talliesOf_cons, if_pos (Command.isFor_pull name n), step_pull hscan hn]
    rfl
  · rw [meetsEnd_cons, step_pull hscan hn]
    simp [batch, further, Session.pull, report, Outcome.atEnd]

theorem heard_closeScan {running : OpenScan} (hscan : s.scans.get? name = some running)
    (rest : List Command) :
    let closed := s.putScan name { running with scan := running.scan.close }
    s.tokensOf (.scan name) (.closeScan name :: rest) = closed.tokensOf (.scan name) rest ∧
      s.talliesOf (.scan name) (.closeScan name :: rest) = closed.talliesOf (.scan name) rest ∧
      ¬ s.MeetsEnd name (.closeScan name :: rest) := by
  intro closed
  refine ⟨?_, ?_, ?_⟩
  · rw [tokensOf_cons, if_pos (Command.isFor_closeScan name), step_closeScan hscan]
    rfl
  · rw [talliesOf_cons, if_pos (Command.isFor_closeScan name), step_closeScan hscan]
    rfl
  · rw [meetsEnd_cons]
    simp

theorem silent_of_no_lines {running : OpenScan} (hscan : s.scans.get? name = some running)
    (hlines : running.scan.lines = []) (hopen : ∀ job, .openScan name job ∉ commands) :
    s.tokensOf (.scan name) commands = [] ∧ s.talliesOf (.scan name) commands = [] := by
  induction commands generalizing s running with
  | nil => exact ⟨rfl, rfl⟩
  | cons command rest ih =>
    have hrest : ∀ job, .openScan name job ∉ rest :=
      fun job hmem => hopen job (List.mem_cons_of_mem command hmem)
    cases hfor : command.isFor (.scan name) with
    | true =>
      rcases isFor_scan hfor with ⟨n, rfl⟩ | rfl
      · cases n with
        | zero =>
          obtain ⟨htokens, htallies, -⟩ := s.heard_pull_zero name rest
          rw [htokens, htallies]
          exact ih hscan hlines hrest
        | succ n =>
          have hbatch : running.scan.pull s.config.rules (n + 1) (s.carried running.carrier) =
              ⟨[], [], s.carried running.carrier, { running.scan with lines := [] }, true⟩ := by
            rw [Scan.pull, Scan.next, hlines]
            rfl
          have hfurther := get?_scans_pull s name (n + 1) running
          obtain ⟨htokens, htallies, -⟩ := heard_pull hscan (Nat.succ_ne_zero n) rest
          dsimp only at hfurther
          rw [hbatch] at hfurther htokens htallies
          obtain ⟨hnothing, huncounted⟩ := ih hfurther rfl hrest
          rw [htokens, htallies, hnothing, huncounted]
          exact ⟨rfl, rfl⟩
      · obtain ⟨htokens, htallies, -⟩ := heard_closeScan hscan rest
        rw [htokens, htallies]
        exact ih (get?_scans_putScan_self ..) rfl hrest
    | false =>
      obtain ⟨htokens, htallies, -⟩ := heard_of_not_isFor (s := s) hfor rest
      have hne : ∀ job, command ≠ .openScan name job := by
        rintro job rfl
        exact hopen job List.mem_cons_self
      rw [htokens, htallies]
      exact ih ((get?_scans_step hne hfor).trans hscan) hlines hrest

/-- **A scan accounts for the lines that it passes**, from any stage on, whatever else goes
on in the session. -/
theorem accounts_scan {given : List Token} {number : Int} {texts : List Text}
    {running : OpenScan} (hscan : s.scans.get? name = some running)
    (hstage : Scan.Stage given number texts running.scan.lines)
    (hopen : ∀ job, .openScan name job ∉ commands) :
    ∃ ended, Scan.Accounts given number texts (s.tokensOf (.scan name) commands)
      (s.talliesOf (.scan name) commands) (s.MeetsEnd name commands) ended := by
  induction commands generalizing s given number texts running with
  | nil => exact ⟨0, .nothing given number texts not_meetsEnd_nil⟩
  | cons command rest ih =>
    have hrest : ∀ job, .openScan name job ∉ rest :=
      fun job hmem => hopen job (List.mem_cons_of_mem command hmem)
    cases hfor : command.isFor (.scan name) with
    | true =>
      rcases isFor_scan hfor with ⟨n, rfl⟩ | rfl
      · cases n with
        | zero =>
          obtain ⟨htokens, htallies, hmeets⟩ := s.heard_pull_zero name rest
          rw [htokens, htallies, propext hmeets]
          exact ih hscan hstage hrest
        | succ n =>
          obtain ⟨htokens, htallies, hmeets⟩ := heard_pull hscan (Nat.succ_ne_zero n) rest
          obtain ⟨ended, haccounts, hfurther⟩ :=
            Scan.accounts_pull s.config.rules (n + 1) (s.carried running.carrier) hstage
          obtain ⟨ended', haccounts'⟩ :=
            ih (get?_scans_pull s name (n + 1) running) hfurther hrest
          rw [htokens, htallies, propext hmeets]
          exact ⟨ended + ended', haccounts.trans hfurther.line_le haccounts'⟩
      · -- all lines that are left are given up
        obtain ⟨htokens, htallies, hmeets⟩ := heard_closeScan hscan rest
        obtain ⟨hnothing, huncounted⟩ :=
          silent_of_no_lines (get?_scans_putScan_self s name
            { running with scan := running.scan.close }) rfl hrest
        rw [htokens, htallies, hnothing, huncounted]
        exact ⟨0, .nothing given number texts hmeets⟩
    | false =>
      obtain ⟨htokens, htallies, hmeets⟩ := heard_of_not_isFor (s := s) hfor rest
      have hne : ∀ job, command ≠ .openScan name job := by
        rintro job rfl
        exact hopen job List.mem_cons_self
      rw [htokens, htallies, propext hmeets]
      exact ih ((get?_scans_step hne hfor).trans hscan) hstage hrest

/-! ### What is counted -/

theorem tallies_of_not_counts {command : Command} (h : command.counts = false) :
    s.tallies command = [] := by
  have htallies : s.tallies command = Tally.ofEvents (s.step command).events := by
    cases command with
    | record _ _ => cases h
    | _ => rfl
  rw [htallies]
  cases hreach : command.reachesScopes with
  | true =>
    obtain ⟨_, _, _, _, hstep⟩ := s.step_scopes hreach
    rw [hstep]
    rfl
  | false =>
    have heffect := effect_step (s := s) hreach
    generalize s.step command = outcome at heffect ⊢
    cases heffect with
    | nothing | stacked | opened | closed | made => rfl
    | pulled | ran | rejected | updated => cases h

/-- **What is counted of the lines that are read.** -/
structure CountsLines (s : Session) : Prop where
  /-- A job that is run at once counts each of its lines, with the tokens on it. -/
  run : ∀ job,
    (∃ tokens, (s.step (.run job)).reply = .ok (.tokens tokens) ∧
      s.tallies (.run job) = Tally.ofLines tokens job.number job.lines) ∨
    ∃ fault, (s.step (.run job)).reply = .error fault ∧ s.tallies (.run job) = []
  /-- An update counts the lines that it reads again, with the tokens of their new rows. -/
  update : s.startFault = none → ∀ lines first,
    let old := s.highlighter.refresh s.config
    let start := old.startOf first lines
    let front := old.rows.take start
    let outcome := s.step (.update lines first)
    ∃ n kept,
      let again := (lines.drop start).take n
      let rows := old.mode.rows s.config.rules false (start + 1)
        (Row.stackAfter old.mode.start front) again
      again.length = n ∧ outcome.reply = .ok (.count n) ∧
        outcome.session.highlighter.rows = front ++ rows ++ kept ∧
        s.tallies (.update lines first) =
          Tally.ofLines (rows.flatMap Row.tokens) (start + 1) again
  /-- An update that has no start counts nothing. -/
  update_fault : s.startFault ≠ none → ∀ lines first, s.tallies (.update lines first) = []
  /-- A scan counts the lines that it passes, and none of those that it gives up. -/
  scan : ∀ name job commands, (s.step (.openScan name job)).reply = .ok .done →
    (∀ other, .openScan name other ∉ commands) →
    let opened := (s.step (.openScan name job)).session
    ∃ ended, Scan.Accounts [] job.number job.lines (opened.tokensOf (.scan name) commands)
      (opened.talliesOf (.scan name) commands) (opened.MeetsEnd name commands) ended
  /-- Nothing else counts a line. -/
  other : ∀ command, command.counts = false → s.tallies command = []

theorem countsLines (s : Session) : s.CountsLines where
  run := s.tallies_run
  update hstart := tallies_update hstart
  update_fault hstart lines first := by
    obtain ⟨fault, hfault⟩ := Option.ne_none_iff_exists'.mp hstart
    show Tally.ofEvents (s.update lines first).events = []
    rw [Session.update, hfault]
    exact Highlighter.tallies_startEvents _ _
  scan name job commands hdone hopen := by
    obtain ⟨carrier, hcarrier⟩ := exists_provides hdone
    have hlines : job.scan.lines = Scan.numbered job.number job.lines := by cases job <;> rfl
    have hstage : Scan.Stage [] job.number job.lines job.scan.lines := by
      rw [hlines]
      exact Scan.stage_numbered job.lines (by simp)
    rw [step_openScan hcarrier]
    exact accounts_scan (get?_scans_putScan_self s name ⟨job.scan, carrier⟩) hstage hopen
  other _ h := tallies_of_not_counts h

/-- **Profiles are conserved.**  Every line that is read to its end is counted once, in the
innermost profile and in no other, and a profile that is left tells the sum of what was
counted while it was the innermost. -/
theorem profiles_conserved (s : Session) :
    s.CountsLines ∧
    (∀ command, command ≠ .enterProfile → command ≠ .exitProfile →
      (s.step command).session.profiles =
        s.profiles.modifyHead (Profile.plus · (s.tallies command))) ∧
    (∀ body, Scope.profile.Balanced (Command.stated body) →
      let entered := (s.step .enterProfile).session
      let outcome := (entered.afterAll body).step .exitProfile
      outcome.reply = .ok (.profile (some
          (Profile.plus {} (entered.innermostTallies (Command.stated body))))) ∧
        outcome.session.profiles = s.profiles) := by
  refine ⟨s.countsLines, ?_, ?_⟩
  · intro command henter hexit
    apply piles_profile.within
    · cases command with
      | enterProfile => exact absurd rfl henter
      | _ => rfl
    · cases command with
      | exitProfile => exact absurd rfl hexit
      | _ => rfl
  · intro body hbalanced entered outcome
    have houtcome : outcome = _ := exitProfile_afterAll s hbalanced
    rw [houtcome]
    exact ⟨rfl, rfl⟩

/-- A scan is begun in one profile, passes its first line in an inner one, and meets its end
when that is left; then the highlighter reads a line. -/
theorem profile_around_inner_profile :
    let a := "a".toList
    let document : Job := .document .blip false "c4\nd5".toList
    let pulls : List Command :=
      [.pull a 1, .enterProfile, .pull a 1, .record 9 3, .exitProfile, .pull a 1]
    let commands := Command.openScan a document :: pulls ++ [.update ["e".toList] 0]
    let body := commands.map Except.ok
    let s : Session := {}
    let entered := (s.step .enterProfile).session
    let opened := (entered.step (.openScan a document)).session
    let outcome := (entered.afterAll body).step .exitProfile
    Scope.profile.Balanced (Command.stated body) ∧
      (∃ ended, Scan.Accounts [] 1 ["c4".toList, "d5".toList] (opened.tokensOf (.scan a) pulls)
        (opened.talliesOf (.scan a) pulls) (opened.MeetsEnd a pulls) ended) ∧
      opened.talliesOf (.scan a) pulls = [⟨2, 1⟩, ⟨2, 1⟩] ∧
      (∃ n, (entered.step (.update ["e".toList] 0)).reply = .ok (.count n)) ∧
      (entered.step (.update ["e".toList] 0)).session.profiles = [⟨1, 1, 1⟩] ∧
      outcome.reply = .ok (.profile (some ⟨2, 2, 3⟩)) ∧ outcome.session.profiles = [] := by
  intro a document pulls commands body s entered opened outcome
  have hbalanced : Scope.profile.Balanced (Command.stated body) := by decide +kernel
  have hopen : ∀ other, .openScan a other ∉ pulls := by simp [pulls]
  obtain ⟨-, -, hscope⟩ := profiles_conserved s
  obtain ⟨hcounts, hstep, -⟩ := profiles_conserved entered
  obtain ⟨hreply, hprofiles⟩ := hscope body hbalanced
  obtain ⟨n, -, -, hupdated, -⟩ := hcounts.update rfl ["e".toList] 0
  refine ⟨hbalanced, hcounts.scan a document pulls rfl hopen, by decide +kernel, ⟨n, hupdated⟩,
    ?_, ?_, hprofiles⟩
  · rw [hstep (.update ["e".toList] 0) nofun nofun]
    decide +kernel
  · rw [hreply]
    have hsum : Profile.plus {} (entered.innermostTallies (Command.stated body)) = ⟨2, 2, 3⟩ := by
      decide +kernel
    rw [hsum]

end Session

end ChipHighlight
