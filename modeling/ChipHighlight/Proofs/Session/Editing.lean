import ChipHighlight.Proofs.Config.Equality
import ChipHighlight.Proofs.Highlighter.UpToDate
import ChipHighlight.Proofs.Session.Runs
import ChipHighlight.Proofs.Text.LineEnds

/-!
# Editing in a session

`Editing mode s last` says that the session `s` came about by editing: a highlighter
for `mode` was made, and then came any commands of the host, except that there was no
other highlighter and that each update could be believed.  `last` is what the last
update handed over, and `Handed.Admits` is when the next one can be believed.

Only the two commands for it reach the highlighter (`sameHighlighter_attempt`), whatever
else is scanned, configured or copied in between.  So the highlighter stays up to date
(`Editing.follows`), and what a host can ask it about a line is what reading the lines
one after the other gives for it.
-/

namespace ChipHighlight

/-! ### Commands that do not reach the highlighter -/

def Command.reachesHighlighter : Command → Bool
  | newHighlighter _ _ | update _ _ => true
  | _ => false

namespace Session

def SameHighlighter (s t : Session) : Prop :=
  t.highlighter = s.highlighter ∧ t.startFault = s.startFault

section

variable {s t : Session}

theorem sameHighlighter_configure (h : s.SameHighlighter t) (given : Setting) :
    s.SameHighlighter (s.configure t given).session := by
  unfold configure
  split
  · exact h
  · exact ⟨rfl, rfl⟩

theorem sameHighlighter_report (h : s.SameHighlighter t) (reply : Reply) (events : List Event) :
    s.SameHighlighter (t.report reply events).session := by
  unfold report note
  split
  · exact h
  · exact h

theorem sameHighlighter_leave (stack : Stack) (carrier : Carrier) :
    s.SameHighlighter (s.leave stack carrier) := by
  cases carrier with
  | own _ => exact ⟨rfl, rfl⟩
  | shared cell => exact ⟨rfl, rfl⟩

theorem sameHighlighter_putScan (h : s.SameHighlighter t) (name : Text) (scan : OpenScan) :
    s.SameHighlighter (t.putScan name scan) := h

theorem sameHighlighter_exitConfig : s.SameHighlighter s.exitConfig.session := by
  unfold exitConfig
  split
  · exact ⟨rfl, rfl⟩
  · exact ⟨rfl, rfl⟩

theorem sameHighlighter_exitProfile : s.SameHighlighter s.exitProfile.session := by
  unfold exitProfile
  split
  · exact ⟨rfl, rfl⟩
  · exact ⟨rfl, rfl⟩

theorem sameHighlighter_record (chars tokens : Int) :
    s.SameHighlighter (s.record chars tokens) := by
  unfold record
  split
  · exact ⟨rfl, rfl⟩
  · exact ⟨rfl, rfl⟩

theorem sameHighlighter_pull (name : Text) (count : Nat) (running : OpenScan) :
    s.SameHighlighter (s.pull name count running).session := by
  unfold pull
  dsimp only
  exact sameHighlighter_report (sameHighlighter_putScan (sameHighlighter_leave _ _) _ _) _ _

theorem sameHighlighter_step {c : Command} (h : c.reachesHighlighter = false) :
    s.SameHighlighter (s.step c).session := by
  have hself : s.SameHighlighter s := ⟨rfl, rfl⟩
  cases c with
  | newHighlighter mode startFault => cases h
  | update lines first => cases h
  | setConfig given => exact sameHighlighter_configure ⟨rfl, rfl⟩ given
  | enterConfig given => exact @sameHighlighter_configure s s.save ⟨rfl, rfl⟩ given
  | exitConfig => exact sameHighlighter_exitConfig
  | exitProfile => exact sameHighlighter_exitProfile
  | record chars tokens => exact sameHighlighter_record chars tokens
  | copyStack source target =>
    exact withCell_session (P := s.SameHighlighter) hself fun _ _ => ⟨rfl, rfl⟩
  | showStack name =>
    exact withCell_session (P := s.SameHighlighter) hself fun _ _ => ⟨rfl, rfl⟩
  | sameStacks a b =>
    exact withCell_session (P := s.SameHighlighter) hself fun _ _ =>
      withCell_session (P := s.SameHighlighter) hself fun _ _ => ⟨rfl, rfl⟩
  | run job =>
    exact withCarrier_session (P := s.SameHighlighter) hself fun _ _ =>
      sameHighlighter_report (sameHighlighter_leave _ _) _ _
  | openScan name job =>
    exact withCarrier_session (P := s.SameHighlighter) hself fun _ _ => ⟨rfl, rfl⟩
  | pull name count =>
    rw [step]
    split
    · exact ⟨rfl, rfl⟩
    · exact withScan_session (P := s.SameHighlighter) hself fun running _ =>
        sameHighlighter_pull name count running
  | closeScan name =>
    exact withScan_session (P := s.SameHighlighter) hself fun _ _ => ⟨rfl, rfl⟩
  | showTokens number =>
    exact withRow_session (P := s.SameHighlighter) hself fun _ => ⟨rfl, rfl⟩
  | showRowStack number saveAs =>
    refine withRow_session (P := s.SameHighlighter) hself fun _ => ?_
    cases saveAs with
    | none => exact ⟨rfl, rfl⟩
    | some name => exact ⟨rfl, rfl⟩
  | resetConfig | showConfig | enterProfile | showProfile | newStack _ _ | showAllTokens
  | showRowStacks | showLines | countLines => exact ⟨rfl, rfl⟩

/-- **Only the commands for it reach the highlighter.** -/
theorem sameHighlighter_attempt {command : Except CommandFault Command}
    (h : ∀ c, command = .ok c → c.reachesHighlighter = false) :
    s.SameHighlighter (s.attempt command).session := by
  cases command with
  | ok c => exact sameHighlighter_step (h c rfl)
  | error fault => exact ⟨rfl, rfl⟩

end

end Session

/-! ### Editing -/

/-- What an update handed over: a document, and the configuration that was active. -/
structure Handed where
  config : Config
  lines : List Text

/-- **When an update can be believed**: the configuration is another one, or the start
is none, or the lines in front of it are those of the document before. -/
def Handed.Admits (past : Handed) (config : Config) (lines : List Text) (first : Int) : Prop :=
  config.same past.config = false ∨ first < 0 ∨ past.lines.length < first ∨
    lines.take (min first.toNat lines.length) = past.lines.take (min first.toNat lines.length)

instance (past : Handed) (config : Config) (lines : List Text) (first : Int) :
    Decidable (past.Admits config lines first) :=
  inferInstanceAs (Decidable (_ ∨ _))

/-- **A session in which a document was edited**, and what was handed over last. -/
inductive Editing (mode : Mode) : Session → Option Handed → Prop
  | begin (s : Session) : Editing mode (s.step (.newHighlighter mode none)).session none
  | other {s : Session} {last : Option Handed} (command : Except CommandFault Command)
      (h : ∀ c, command = .ok c → c.reachesHighlighter = false) :
      Editing mode s last → Editing mode (s.attempt command).session last
  | update {s : Session} {last : Option Handed} (lines : List Text) (first : Int)
      (h : ∀ past ∈ last, past.Admits s.config lines first) :
      Editing mode s last →
      Editing mode (s.step (.update lines first)).session (some ⟨s.config, lines⟩)

/-- What holds of a highlighter while a document is edited. -/
structure Highlighter.Follows (h : Highlighter) (mode : Mode) (last : Option Handed) : Prop where
  mode_eq : h.mode = mode
  upToDate : h.UpToDate
  config_eq : last = none → h.config = none
  lines_eq : ∀ past ∈ last, h.lines = past.lines
  same : ∀ past ∈ last, ∃ kept, h.config = some kept ∧ past.config.same kept = true

namespace Highlighter

variable {h : Highlighter} {mode : Mode} {last : Option Handed}

theorem follows_new (mode : Mode) : (new mode).Follows mode none where
  mode_eq := rfl
  upToDate := upToDate_new mode
  config_eq := fun _ => rfl
  lines_eq := fun _ hpast => nomatch hpast
  same := fun _ hpast => nomatch hpast

/-- **An update that can be believed keeps the lines in front.** -/
theorem Follows.keepsFront (hf : h.Follows mode last) {config : Config} {lines : List Text}
    {first : Int} (hadm : ∀ past ∈ last, past.Admits config lines first) :
    h.KeepsFront config lines first := by
  unfold KeepsFront
  cases hc : h.isCurrent config with
  | false => rw [startOf_refresh_of_not_current hc, List.take_zero, List.take_zero]
  | true =>
    rw [refresh_of_current hc]
    obtain ⟨kept, hkept, hsame⟩ := isCurrent_iff.mp hc
    cases last with
    | none =>
      rw [hf.config_eq rfl] at hkept
      cases hkept
    | some past =>
      rcases hadm past rfl with hdiff | hneg | hbeyond | htake
      · -- the configuration that is kept equals both
        obtain ⟨kept', hkept', hpast⟩ := hf.same past rfl
        rw [hkept, Option.some_inj] at hkept'
        rw [← hkept'] at hpast
        rw [Config.same_trans hsame (Config.same_symm hpast)] at hdiff
        cases hdiff
      · rw [startOf_of_rejected (Or.inl hneg), List.take_zero, List.take_zero]
      · rw [← hf.lines_eq past rfl] at hbeyond
        rw [startOf_of_rejected (Or.inr hbeyond), List.take_zero, List.take_zero]
      · unfold startOf
        split
        · rw [hf.lines_eq past rfl, htake]
        · rw [List.take_zero, List.take_zero]

theorem Follows.update (hf : h.Follows mode last) {config : Config} {lines : List Text}
    {first : Int} (hadm : ∀ past ∈ last, past.Admits config lines first) :
    (h.update config lines first).highlighter.Follows mode (some ⟨config, lines⟩) where
  mode_eq := (mode_update h config lines first).trans hf.mode_eq
  upToDate := upToDate_update hf.upToDate (hf.keepsFront hadm)
  config_eq := fun hnone => nomatch hnone
  lines_eq := fun past hpast => by
    rw [lines_update, ← Option.some_inj.mp hpast]
  same := fun past hpast => by
    rw [config_update, ← Option.some_inj.mp hpast]
    exact exists_config_refresh h config

theorem Follows.rows_eq {past : Handed} (hf : h.Follows mode (some past)) :
    h.rows = mode.rows past.config.rules false 1 mode.start past.lines := by
  obtain ⟨kept, hkept, hsame⟩ := hf.same past rfl
  rw [hf.upToDate kept hkept, hf.mode_eq, hf.lines_eq past rfl, Config.rules_of_same hsame]

theorem row?_succ (h : Highlighter) {i : Nat} (hi : i < h.rows.length) :
    h.row? (i + 1) = h.rows[i]? := by
  have hplace : Index.place? h.rows.length ((i : Int) + 1 - 1) = some i := by
    have hnot : ¬ (i : Int) < 0 := by omega
    unfold Index.place? Index.fromStart
    rw [Int.add_sub_cancel, if_neg hnot, if_pos (by omega), Int.toNat_natCast]
  rw [row?, Index.get?, hplace, Option.bind_some]

end Highlighter

theorem Session.step_update {s : Session} (h : s.startFault = none) (lines : List Text)
    (first : Int) :
    let update := s.highlighter.update s.config lines first
    s.step (.update lines first) =
      report { s with highlighter := update.highlighter } (.count update.scanned) update.events := by
  rw [step, Session.update, h]

theorem Session.session_update (s : Session) (lines : List Text) (first : Int)
    (hfault : s.startFault = none) :
    (s.step (.update lines first)).session.highlighter =
        (s.highlighter.update s.config lines first).highlighter ∧
      (s.step (.update lines first)).session.startFault = none := by
  rw [step_update hfault]
  let updated := (s.highlighter.update s.config lines first).highlighter
  obtain ⟨hh, hs⟩ := @sameHighlighter_report { s with highlighter := updated } _ ⟨rfl, rfl⟩
    (.count (s.highlighter.update s.config lines first).scanned)
    (s.highlighter.update s.config lines first).events
  exact ⟨hh, hs.trans hfault⟩

/-- **Editing keeps the highlighter up to date.** -/
theorem Editing.follows {mode : Mode} {s : Session} {last : Option Handed}
    (h : Editing mode s last) : s.highlighter.Follows mode last ∧ s.startFault = none := by
  induction h with
  | begin s => exact ⟨Highlighter.follows_new mode, rfl⟩
  | other command hother _ ih =>
    obtain ⟨hh, hs⟩ := Session.sameHighlighter_attempt hother
    rw [hh, hs]
    exact ih
  | update lines first hadm _ ih =>
    obtain ⟨hh, hs⟩ := Session.session_update _ lines first ih.2
    rw [hh]
    exact ⟨ih.1.update hadm, hs⟩

/-! ### What a host finds -/

theorem Mode.row_eq_transcribeLine (mode : Mode) (rules : Rules) (number : Int) (stack : Stack)
    (line : Text) :
    mode.row rules false number stack line =
      ⟨(mode.transcribeLine rules false number stack line).tokens,
        (mode.transcribeLine rules false number stack line).stack⟩ := by
  unfold transcribeLine transcribe Transcript.ofRows
  rw [rows_cons, rows_nil, List.flatMap_cons, List.flatMap_nil, List.append_nil]
  rfl

/-- The rows of a document of lines without line ends are those of its text. -/
theorem flatMap_tokens_rows_join (mode : Mode) (rules : Rules) {lines : List Text}
    (h : ∀ line ∈ lines, '\r' ∉ line ∧ '\n' ∉ line) :
    (mode.rows rules false 1 [] lines).flatMap Row.tokens =
      (mode.transcribeSource rules false (Text.join ['\n'] lines)).tokens := by
  unfold Mode.transcribeSource Mode.transcribe Transcript.ofRows
  dsimp only
  cases lines with
  | nil =>
    -- the empty text has one line, but no token stands on it
    rw [show linesOf (Text.join ['\n'] []) = [[]] from rfl, Mode.rows_cons, Mode.row, Mode.spans_nil]
    rfl
  | cons line rest => rw [linesOf_join (List.cons_ne_nil line rest) h]

/-- **Highlighting while editing equals reading from the first line.**  Line by line,
each begun with what the one before it left, and for lines without line ends in the
mode of the notation as one text. -/
theorem Editing.replies_eq_full_scan {mode : Mode} {s : Session} {past : Handed}
    (h : Editing mode s (some past)) :
    (s.step .showLines).reply = .ok (.lines past.lines) ∧
      (∀ (i : Nat) (hi : i < past.lines.length) (saveAs : Option Text),
        let before := mode.carry past.config.rules mode.start (past.lines.take i)
        let run := mode.transcribeLine past.config.rules false (i + 1) before past.lines[i]
        (s.step (.showTokens (i + 1))).reply = .ok (.tokens run.tokens) ∧
          (s.step (.showRowStack (i + 1) saveAs)).reply = .ok (.stack run.stack) ∧
          mode.carry past.config.rules mode.start (past.lines.take (i + 1)) = run.stack) ∧
      (mode = .blip → (∀ line ∈ past.lines, '\r' ∉ line ∧ '\n' ∉ line) →
        (s.step .showAllTokens).reply =
          .ok (.tokens (Mode.blip.transcribeSource past.config.rules false
            (Text.join ['\n'] past.lines)).tokens)) := by
  obtain ⟨hf, -⟩ := h.follows
  refine ⟨?_, ?_, ?_⟩
  · rw [← hf.lines_eq past rfl]
    rfl
  · intro i hi saveAs before run
    have hlen : i < s.highlighter.rows.length := by rwa [hf.rows_eq, Mode.length_rows]
    have hrow : s.highlighter.row? (i + 1) = some ⟨run.tokens, run.stack⟩ := by
      rw [Highlighter.row?_succ _ hlen, hf.rows_eq, Mode.rows_getElem? _ _ _ _ _ _ hi,
        Mode.row_eq_transcribeLine, Int.add_comm 1]
    refine ⟨?_, ?_, ?_⟩
    · rw [Session.step, Session.withRow, hrow]
      rfl
    · rw [Session.step, Session.withRow, hrow]
      cases saveAs with
      | none => rfl
      | some name => rfl
    · rw [Mode.carry_take_succ _ _ _ hi]
      rfl
  · rintro rfl hclean
    rw [← flatMap_tokens_rows_join Mode.blip past.config.rules hclean]
    show Except.ok (Reply.tokens (s.highlighter.rows.flatMap Row.tokens)) = _
    rw [hf.rows_eq]
    rfl

/-- The first line is edited inside of a literal that goes on in the second, under a
configuration that is equal to the one before without being the same. -/
theorem replies_after_retyping :
    let document (line : String) : List Text := [line.toList, "x' c4".toList]
    let opened := (({} : Session).step (.newHighlighter .blip none)).session
    let typed := (opened.step (.update (document "c4 'a") 0)).session
    let set := (typed.step (.setConfig (.object [(Config.lenientSharpsField, .int 0)]))).session
    let retyped := (set.step (.update (document "d4 'b") 0)).session
    Editing .blip retyped (some ⟨set.config, document "d4 'b"⟩) ∧
      (retyped.step (.showTokens 2)).reply =
        .ok (.tokens [⟨some .string, "x'".toList, 2, 1, 0, 2⟩,
          ⟨some .note, "c4".toList, 2, 4, 3, 5⟩]) := by
  intro document opened typed set retyped
  have h : Editing .blip retyped (some ⟨set.config, document "d4 'b"⟩) := by
    refine .update _ _ ?_ (.other (.ok (.setConfig _)) ?_ (.update _ _ ?_ (.begin _)))
    · rintro past ⟨⟩
      decide
    · rintro c ⟨⟩
      rfl
    · rintro past ⟨⟩
  refine ⟨h, ?_⟩
  refine (h.replies_eq_full_scan.2.1 1 (by decide) none).1.trans ?_
  exact congrArg (fun tokens => Except.ok (Reply.tokens tokens)) (by decide +kernel)

end ChipHighlight
