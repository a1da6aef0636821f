import ChipHighlight.Proofs.Scan.Resuming
import ChipHighlight.Proofs.Session.Parties
import ChipHighlight.Proofs.Session.Pulling

/-!
# Scans that are given up and taken up again

A host pulls some tokens of a line, closes the scan, and has the rest of the line read as a
line of its own, from the same named stack.  What the closed scan left in the cell is what
was open behind the last token that it gave, so the line was cut there (`ResumesAt`), and the
host gets the tokens that it did not get and leaves what the whole line leaves
(`resumed_behind_token`).
-/

namespace ChipHighlight.Session

variable {s : Session} {shared : Text} {cell : Nat}

theorem run_line (hs : s.Sound) (hname : s.names.get? shared = some cell) (keepGaps : Bool)
    (number : Int) (line : Text) :
    let outcome := s.step (.run (.line .blip keepGaps number (some shared) line))
    outcome.reply = .ok (.tokens (Moment.tokens
        (lineMoments s.config.rules keepGaps number 0 (s.cell cell) line))) ∧
      outcome.session.cell cell =
        Span.stackAfter (s.cell cell) (lineSpans s.config.rules (s.cell cell) line) := by
  intro outcome
  have hprovides : s.Provides (.line .blip keepGaps number (some shared) line) (.shared cell) :=
    .shared rfl hname
  obtain ⟨tokens, hreply, hcame⟩ := came_run hs hprovides
  have htokens := hcame.tokens_eq
  have hcell := hcame.cell_eq cell rfl
  rw [Job.moments_line] at htokens hcell
  rw [Moment.tokens_append, Moment.tokens_ended, Moment.tokens_nil, List.append_nil] at htokens
  rw [Moment.stackAfter_append] at hcell
  exact ⟨htokens ▸ hreply, hcell⟩

/-- A scan of a line that is opened, asked for tokens that are there, and closed: the session is as
it was in front, but that the cell holds what was open behind the last of these tokens. -/
theorem closed_behind_token (hs : s.Sound) (hname : s.names.get? shared = some cell) (name : Text)
    (keepGaps : Bool) (number : Int) (line : Text) {k : Nat} :
    let moments := lineMoments s.config.rules keepGaps number 0 (s.cell cell) line
    let opened := s.step (.openScan name (.line .blip keepGaps number (some shared) line))
    let pulled := opened.session.step (.pull name k)
    let closed := pulled.session.step (.closeScan name)
    k ≤ (Moment.tokens moments).length →
      opened.reply = .ok .done ∧
        pulled.reply = .ok (.batch ((Moment.tokens moments).take k) false) ∧
        closed.reply = .ok .done ∧ closed.session.Sound ∧ closed.session.config = s.config ∧
        closed.session.names = s.names ∧
        closed.session.cell cell = Moment.stackAfter (s.cell cell) (Moment.upTo k moments) := by
  intro moments opened pulled closed hk
  have hprovides : s.Provides (.line .blip keepGaps number (some shared) line) (.shared cell) :=
    .shared rfl hname
  obtain ⟨ended, hnone, hmoments⟩ : ∃ ended, Moment.tokens ended = [] ∧
      (Job.line .blip keepGaps number (some shared) line).moments s.config.rules (s.cell cell) =
        moments ++ ended := ⟨_, rfl, Job.moments_line _⟩
  have hstands : opened.session.Stands name (some cell) (s.cell cell) (moments ++ ended) :=
    hmoments ▸ stands_openScan hprovides
  obtain ⟨hpull, -, hthere, -⟩ := hstands.pull (hs.step _) k
  obtain ⟨hclose, -, hleft⟩ := hthere.closeScan
  rw [Moment.tokens_append, hnone, List.append_nil, Moment.upTo_append_of_le hk, Moment.tokens_upTo,
    decide_eq_false (Nat.not_lt.mpr hk)] at hpull
  rw [Moment.upTo_append_of_le hk] at hleft
  have hopened : opened = (s.putScan name ⟨_, .shared cell⟩).answer .done := step_openScan hprovides
  have hkeeps : opened.session.Keeps closed.session :=
    (@keeps_step opened.session (.pull name k) nofun).trans
      (@keeps_step pulled.session (.closeScan name) nofun)
  refine ⟨by rw [hopened]; rfl, hpull, hclose, ((hs.step _).step _).step _, ?_, ?_,
    hleft.cell_eq rfl⟩
  · exact hkeeps.config_eq.trans (by rw [hopened]; rfl)
  · exact hkeeps.names_eq.trans (by rw [hopened]; rfl)

/-- **A scan can be given up behind any token, and taken up again on the rest of the line.**  A host
asks for the first `k` tokens of a line, closes the scan, and has what is behind the `k`-th token
read as a line of its own from the same named stack.  It gets the tokens of the whole line that
it did not get, moved to the left by what was cut off, and leaves the same open. -/
theorem resumed_behind_token (before : List Command) (name shared : Text) {cell : Nat}
    (keepGaps : Bool) (number : Int) (line : Text) (k : Nat) :
    let s := ({} : Session).after before
    let job := Job.line .blip keepGaps number (some shared)
    let whole := s.step (.run (job line))
    s.names.get? shared = some cell →
    ∃ all, whole.reply = .ok (.tokens all) ∧
      (k ≤ all.length →
        let opened := s.step (.openScan name (job line))
        let pulled := opened.session.step (.pull name k)
        let closed := pulled.session.step (.closeScan name)
        opened.reply = .ok .done ∧ pulled.reply = .ok (.batch (all.take k) false) ∧
          closed.reply = .ok .done ∧
          ∃ cut : Nat, cut ≤ line.length ∧ (cut : Int) = Token.endOf 0 (all.take k) ∧
            let resumed := closed.session.step (.run (job (line.drop cut)))
            resumed.reply = .ok (.tokens ((all.drop k).map (Token.moveLeft cut))) ∧
              resumed.session.cell cell = whole.session.cell cell) := by
  intro s job whole hname
  have hs : s.Sound := sound_after before
  obtain ⟨hall, hwhole⟩ := run_line hs hname keepGaps number line
  refine ⟨_, hall, ?_⟩
  intro hk opened pulled closed
  obtain ⟨hopen, hpull, hclose, hsound, hconfig, hnames, hcell⟩ :=
    closed_behind_token hs hname name keepGaps number line hk
  obtain ⟨cut, there, hcut⟩ := exists_resumesAt hk
  have hend := hcut.end_eq
  rw [Int.natCast_zero, Int.zero_add] at hend
  refine ⟨hopen, hpull, hclose, cut, hcut.le_length, hend, ?_⟩
  intro resumed
  have hlater : closed.session.names.get? shared = some cell := by rw [hnames, hname]
  obtain ⟨hrest, hleft⟩ := run_line hsound hlater keepGaps number (line.drop cut)
  rw [hconfig, hcell, hcut.there_eq] at hrest hleft
  refine ⟨hrest.trans ?_, hleft.trans (hcut.stack_eq.trans hwhole.symm)⟩
  rw [← Moment.tokens_beyond, ← hcut.moments_eq, Nat.zero_add, ← tokens_lineMoments_moveLeft cut,
    Nat.add_zero]

/-- A line is given up in the literal that it began in, behind another one that was nested in
that. -/
theorem resumed_inside_literal :
    let literal : Literal := { opening := ['('], closing := [')'], style := none }
    let before : List Command := [.newStack "s".toList [literal]]
    let s := ({} : Session).after before
    let job := Job.line .blip false 3 (some "s".toList)
    let line := "a(b) )  c4 'd".toList
    let whole := s.step (.run (job line))
    let pulled := (s.step (.openScan [] (job line))).session.step (.pull [] 1)
    let closed := pulled.session.step (.closeScan [])
    let resumed := closed.session.step (.run (job " )  c4 'd".toList))
    s.names.get? "s".toList = some 0 ∧
      ∃ all, whole.reply = .ok (.tokens all) ∧ 1 ≤ all.length ∧
        resumed.reply = .ok (.tokens ((all.drop 1).map (Token.moveLeft 4))) ∧
        resumed.session.cell 0 = whole.session.cell 0 := by
  intro literal before s job line whole pulled closed resumed
  have hname : s.names.get? "s".toList = some 0 := by decide
  obtain ⟨all, hall, hresumed⟩ :=
    resumed_behind_token before [] "s".toList false 3 line 1 hname
  have htokens : whole.reply = .ok (.tokens (Mode.blip.transcribeLine s.config.rules false 3
      [literal] line).tokens) := rfl
  obtain rfl := Reply.tokens.inj (Except.ok.inj (hall.symm.trans htokens))
  have hk : 1 ≤ (Mode.blip.transcribeLine s.config.rules false 3 [literal] line).tokens.length := by
    decide +kernel
  obtain ⟨-, -, -, cut, -, hcut, hreply, hcell⟩ := hresumed hk
  obtain rfl : cut = 4 := by
    have hend : Token.endOf 0 ((Mode.blip.transcribeLine s.config.rules false 3 [literal]
        line).tokens.take 1) = 4 := by decide +kernel
    exact Int.ofNat_inj.mp (hcut.trans hend)
  exact ⟨hname, _, hall, hk, hreply, hcell⟩

end ChipHighlight.Session
