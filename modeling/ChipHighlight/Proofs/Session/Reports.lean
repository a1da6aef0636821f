import ChipHighlight.Log
import ChipHighlight.Proofs.Session.Updating

/-!
# What an update says it did

An update gives four accounts of itself: the number that it replies, what it adds to the
profile, what it logs, and the rows that it leaves.  `Updating.update_reports` says that they
agree, whatever the updates before it were like.  Its rows say the most (`Row.Reread`): some
lines were read again, and the rows in front of them and behind them are old ones,

    old rows | rows read again | old rows, moved
    0 …        start …           start + n …

and the other three are accounts of the lines in the middle.  The log tells besides why so
many were read, if the host may wonder (`Handed.notices`), and where reading stopped.
-/

namespace ChipHighlight

/-! ### What is expected -/

namespace Handed

def kept (config : Config) (last : Option Handed) : List Text :=
  if isKept config last then (last.map Handed.lines).getD [] else []

def accepts (config : Config) (last : Option Handed) (first : Int) : Bool :=
  0 ≤ first && first ≤ (kept config last).length

/-- The line, counted from zero, that an update begins at. -/
def start (config : Config) (last : Option Handed) (lines : List Text) (first : Int) : Nat :=
  if accepts config last first then min first.toNat lines.length else 0

/-- What an update says before it reads anything. -/
def notices (config : Config) (last : Option Handed) (first : Int) : List Text :=
  (if last.any fun past => !config.same past.config && !past.lines.isEmpty then
    ["Lexer config changed, re-scanning all lines".toList]
  else []) ++
  if accepts config last first then []
  else
    ["Edit start ".toList ++ Text.ofInt first ++ " out of range, re-scanning all lines".toList]

end Handed

namespace Row

/-- What is said about lines that end inside of literals. -/
def openEnds : Int → List Row → List Text
  | _, [] => []
  | number, ⟨_, []⟩ :: rows => openEnds (number + 1) rows
  | number, ⟨_, a :: outer⟩ :: rows =>
    ("Line ".toList ++ Text.ofInt number ++ " ends inside ".toList ++
      Text.ofNat (a :: outer).length ++ " open literal(s)".toList) :: openEnds (number + 1) rows

/-- The rows of `n` lines from the line `start` on, begun with what old rows left open. -/
def readAgain (mode : Mode) (rules : Rules) (old : List Row) (lines : List Text)
    (start n : Nat) : List Row :=
  mode.rows rules false (start + 1) (stackAfter mode.start (old.take start))
    ((lines.drop start).take n)

/-- The last old rows, for the lines that are left behind the line `stop`. -/
def movedRest (old : List Row) (lines : List Text) (stop : Nat) : List Row :=
  (old.drop (old.length - (lines.length - stop))).map (moveDown (lines.length - old.length))

/-- **Rows of which `n` were read again**, from the line `start` on, and no others. -/
structure Reread (mode : Mode) (rules : Rules) (old : List Row) (lines : List Text)
    (start n : Nat) (rows : List Row) : Prop where
  within : start + n ≤ lines.length
  pos : start < lines.length → 0 < n
  front : rows.take start = old.take start
  read : (rows.drop start).take n = readAgain mode rules old lines start n
  rest : rows.drop (start + n) = movedRest old lines (start + n)

end Row

def Event.endOf? : Event → Option Int
  | lineEnd number _ _ _ => some number
  | _ => none

def Log.worded (messages : List Text) : List Record :=
  messages.map fun message => ⟨"DEBUG".toList, reading, message⟩

/-! ### Accounts of the lines that are read -/

theorem Log.ofEvents_eq_worded (events : List Event) :
    ofEvents events = worded (events.filterMap Event.message?) :=
  List.map_filterMap.symm

theorem Row.message?_endings {number : Int} {lines : List Text} {rows : List Row}
    (h : rows.length = lines.length) :
    (endings number lines rows).filterMap Event.message? = openEnds number rows := by
  induction lines generalizing number rows with
  | nil => rw [List.length_eq_zero_iff.mp h]; rfl
  | cons line lines ih =>
    obtain ⟨⟨tokens, stack⟩, rows, rfl⟩ := List.exists_cons_of_length_eq_add_one h
    have hrest : (endings (number + 1) lines rows).filterMap Event.message? =
      openEnds (number + 1) rows := ih (Nat.succ.inj h)
    cases stack with
    | nil => exact hrest
    | cons a outer => exact congrArg (_ :: ·) hrest

theorem Row.endOf?_endings {number : Int} {lines : List Text} {rows : List Row}
    (h : rows.length = lines.length) :
    (endings number lines rows).filterMap Event.endOf? =
      (List.range lines.length).map fun i : Nat => number + i := by
  induction lines generalizing number rows with
  | nil => rw [List.length_eq_zero_iff.mp h]; rfl
  | cons line lines ih =>
    obtain ⟨row, rows, rfl⟩ := List.exists_cons_of_length_eq_add_one h
    have hrest : (endings (number + 1) lines rows).filterMap Event.endOf? = _ :=
      ih (Nat.succ.inj h)
    rw [List.length_cons, List.range_succ_eq_map, List.map_cons, List.map_map]
    show number :: (endings (number + 1) lines rows).filterMap Event.endOf? = _
    rw [hrest]
    congr 1
    · omega
    · refine List.map_congr_left fun i _ => ?_
      show number + 1 + (i : Int) = number + (i + 1 : Nat)
      omega

/-! With the event of the place where reading stopped, if it did. -/

section

variable {number stop : Int} {lines : List Text} {rows : List Row} {stopped : Prop}
  [Decidable stopped]

theorem Row.follow_reread (h : rows.length = lines.length) (profile : Profile) :
    profile.follow (endings number lines rows ++ if stopped then [Event.converged stop] else []) =
      profile.reading lines (rows.flatMap Row.tokens) := by
  rw [← Profile.follow_endings profile number h, Profile.follow_eq_plus, Profile.follow_eq_plus,
    Tally.ofEvents_append]
  split
  · exact congrArg profile.plus (List.append_nil _)
  · exact congrArg profile.plus (List.append_nil _)

theorem Row.endOf?_reread (h : rows.length = lines.length) :
    (endings number lines rows ++ if stopped then [Event.converged stop] else []).filterMap
        Event.endOf? = (List.range lines.length).map fun i : Nat => number + i := by
  rw [List.filterMap_append, endOf?_endings h]
  split
  · exact List.append_nil _
  · exact List.append_nil _

theorem Row.message?_reread (h : rows.length = lines.length) :
    (endings number lines rows ++ if stopped then [Event.converged stop] else []).filterMap
        Event.message? =
      openEnds number rows ++
        if stopped then ["Highlight state converged at line ".toList ++ Text.ofInt stop] else [] := by
  rw [List.filterMap_append, message?_endings h]
  split
  · rfl
  · rfl

end

/-! ### Updates -/

section

variable {mode : Mode} {rules : Rules} {old : List Row} {lines : List Text} {start n : Nat}

theorem Row.length_readAgain (h : start + n ≤ lines.length) :
    (readAgain mode rules old lines start n).length = n := by
  rw [readAgain, Mode.length_rows, List.length_take_of_le]
  rw [List.length_drop]
  omega

theorem Row.movedRest_length : movedRest old lines lines.length = [] := by
  rw [movedRest, Nat.sub_self, Nat.sub_zero, List.drop_length, List.map_nil]

theorem Row.reread_of_append (hfront : start ≤ old.length) (hwithin : start + n ≤ lines.length)
    (hpos : start < lines.length → 0 < n) :
    Reread mode rules old lines start n (old.take start ++
      (readAgain mode rules old lines start n ++ movedRest old lines (start + n))) := by
  have hstart : (old.take start).length = start := List.length_take_of_le hfront
  have hread : (readAgain mode rules old lines start n).length = n := length_readAgain hwithin
  refine ⟨hwithin, hpos, List.take_left' hstart, ?_, ?_⟩
  · rw [List.drop_left' hstart, List.take_left' hread]
  · rw [← List.drop_drop, List.drop_left' hstart, List.drop_left' hread]

end

namespace Highlighter

variable {h : Highlighter} {lines : List Text} {start : Nat}

theorem exists_rescanFrom_eq (hw : h.WellFormed) (rules : Rules) (hle : start ≤ lines.length) :
    ∃ n, start + n ≤ lines.length ∧ (start < lines.length → 0 < n) ∧
      let read := Row.readAgain h.mode rules h.rows lines start n
      h.rescanFrom rules start lines =
        ⟨read ++ Row.movedRest h.rows lines (start + n), n,
          Row.endings (start + 1) ((lines.drop start).take n) read ++
            if start + n < lines.length then [.converged (start + 1 + n)] else []⟩ := by
  rcases rescan_cases h.mode rules h.rows (sharedEnd h.lines lines)
      (lines.length - h.lines.length) (start + 1)
      (Row.stackAfter h.mode.start (h.rows.take start)) (lines.drop start) with
    ⟨-, heq⟩ | ⟨n, kept, hpos, hlt, -, hsome, heq⟩
  · -- nothing is left behind the last line
    have hlength : start + (lines.drop start).length = lines.length := by
      rw [List.length_drop]
      omega
    refine ⟨(lines.drop start).length, Nat.le_of_eq hlength, fun hlt => by omega, ?_⟩
    rw [rescanFrom, heq, hlength, Row.movedRest_length, if_neg (Nat.lt_irrefl _), Row.readAgain,
      List.take_length]
    dsimp only
    rw [List.append_nil, List.append_nil]
  · rw [List.length_drop] at hlt
    obtain ⟨-, -, -, -, hkept⟩ := keptAfter?_eq_some_iff.mp hsome
    have hleft : (lines.drop start).length - n = lines.length - (start + n) := by
      rw [List.length_drop]
      omega
    refine ⟨n, by omega, fun _ => hpos, ?_⟩
    rw [rescanFrom, heq, hkept, hleft, if_pos (by omega), ← hw.length_eq]
    rfl

/-- Of the rows that were kept an update uses none under another configuration. -/
theorem used_rows_update (h : Highlighter) (config : Config) (lines : List Text) (first : Int) :
    let old := (h.refresh config).rows
    let start := (h.refresh config).startOf first lines
    let stop := start + (h.update config lines first).scanned
    old.take start = h.rows.take start ∧
      Row.movedRest old lines stop = Row.movedRest h.rows lines stop := by
  intro old start stop
  cases hc : h.isCurrent config with
  | true =>
    have hold : old = h.rows := congrArg rows (refresh_of_current hc)
    rw [hold]
    exact ⟨rfl, rfl⟩
  | false =>
    have hstart : start = 0 := startOf_refresh_of_not_current hc first lines
    obtain ⟨-, hscanned, -⟩ := update_of_not_current hc lines first first
    have hstop : stop = lines.length := by omega
    rw [hstart, hstop, Row.movedRest_length, Row.movedRest_length]
    exact ⟨rfl, rfl⟩

/-- **An update, as accounts of the lines that are read.** -/
theorem reread_update (hw : h.WellFormed) (config : Config) (lines : List Text) (first : Int) :
    let start := (h.refresh config).startOf first lines
    let update := h.update config lines first
    let n := update.scanned
    let read := (update.highlighter.rows.drop start).take n
    Row.Reread h.mode config.rules h.rows lines start n update.highlighter.rows ∧
      update.events = h.refreshEvents config ++ (h.refresh config).startEvents first ++
        (Row.endings (start + 1) ((lines.drop start).take n) read ++
          if start + n < lines.length then [.converged (start + 1 + n)] else []) := by
  intro start update n read
  have hle : start ≤ lines.length := startOf_le_length (h.refresh config) first lines
  obtain ⟨m, hwithin, hpos, heq⟩ :=
    exists_rescanFrom_eq (hw.refresh config) config.rules hle
  have hm : n = m := congrArg Rescan.scanned heq
  subst hm
  obtain ⟨hfront, hrest⟩ := used_rows_update h config lines first
  have hagain : Row.readAgain (h.refresh config).mode config.rules (h.refresh config).rows lines
      start n = Row.readAgain h.mode config.rules h.rows lines start n := by
    rw [Row.readAgain, Row.readAgain, hfront, mode_refresh]
  rw [hagain, hrest] at heq
  have hrows : update.highlighter.rows = h.rows.take start ++
      (Row.readAgain h.mode config.rules h.rows lines start n ++
        Row.movedRest h.rows lines (start + n)) := by
    rw [rows_update_eq_append, hfront]
    exact congrArg (h.rows.take start ++ Rescan.rows ·) heq
  have hreread : Row.Reread h.mode config.rules h.rows lines start n update.highlighter.rows := by
    have hstart : start ≤ h.rows.length := by
      have hlength := congrArg List.length hfront
      rw [List.length_take, List.length_take] at hlength
      have := (hw.refresh config).startOf_le first lines
      omega
    rw [hrows]
    exact Row.reread_of_append hstart hwithin hpos
  refine ⟨hreread, ?_⟩
  rw [show read = _ from hreread.read]
  exact congrArg (_ ++ Rescan.events ·) heq

/-! ### What the host can expect -/

section

variable {mode : Mode} {last : Option Handed}

theorem Recalls.lines_refresh (hr : h.Recalls mode last) (config : Config) :
    (h.refresh config).lines = Handed.kept config last := by
  unfold Handed.kept
  rw [← hr.isCurrent_eq]
  cases hc : h.isCurrent config with
  | true => rw [refresh_of_current hc, if_pos rfl, hr.lines_eq]
  | false => rw [refresh_of_not_current hc, if_neg Bool.false_ne_true]

theorem Recalls.acceptsStart_refresh (hr : h.Recalls mode last) (config : Config) (first : Int) :
    (h.refresh config).acceptsStart first = Handed.accepts config last first := by
  rw [acceptsStart, hr.lines_refresh, Handed.accepts]

theorem Recalls.startOf_refresh (hr : h.Recalls mode last) (config : Config) (lines : List Text)
    (first : Int) :
    (h.refresh config).startOf first lines = Handed.start config last lines first := by
  rw [startOf, hr.acceptsStart_refresh, Handed.start]

theorem Recalls.message?_events (hr : h.Recalls mode last) (config : Config) (first : Int) :
    (h.refreshEvents config ++ (h.refresh config).startEvents first).filterMap Event.message? =
      Handed.notices config last first := by
  have hchanged : (h.refreshEvents config).filterMap Event.message? =
      if last.any fun past => !config.same past.config && !past.lines.isEmpty then
        ["Lexer config changed, re-scanning all lines".toList]
      else [] := by
    rw [refreshEvents, hr.isCurrent_eq, hr.lines_eq]
    cases last with
    | none => rfl
    | some past =>
      show List.filterMap _ (if config.same past.config || past.lines.isEmpty then _ else _) =
        if !config.same past.config && !past.lines.isEmpty then _ else _
      rw [← Bool.not_or]
      cases config.same past.config || past.lines.isEmpty <;> rfl
  rw [List.filterMap_append, hchanged, startEvents, hr.acceptsStart_refresh, Handed.notices]
  cases Handed.accepts config last first <;> rfl

end

theorem endOf?_notices (h k : Highlighter) (config : Config) (first : Int) :
    (h.refreshEvents config ++ k.startEvents first).filterMap Event.endOf? = [] := by
  unfold refreshEvents startEvents
  split <;> split <;> rfl

end Highlighter

/-- **An update reports what it did.**  It reads again the lines from where it begins on, as
many as it replies, and no others; the profile counts these lines with the tokens that now
stand on them; and the log says why it had to begin at the first line, which of the lines that
were read end inside of literals, and where old rows could be kept again, if any were. -/
theorem Updating.update_reports {mode : Mode} {s : Session} {last : Option Handed}
    (h : Updating mode s last) (lines : List Text) (first : Int) :
    let start := Handed.start s.config last lines first
    let outcome := s.step (.update lines first)
    let rows := outcome.session.highlighter.rows
    ∃ n,
      let again := (lines.drop start).take n
      let read := (rows.drop start).take n
      outcome.reply = .ok (.count n) ∧
        Row.Reread mode s.config.rules s.highlighter.rows lines start n rows ∧
        outcome.session.profiles =
          s.profiles.modifyHead (Profile.reading again (read.flatMap Row.tokens)) ∧
        outcome.events.filterMap Event.endOf? =
          ((List.range n).map fun i : Nat => (start : Int) + 1 + i) ∧
        Log.ofEvents outcome.events = Log.worded (Handed.notices s.config last first ++
          Row.openEnds (start + 1) read ++
          if start + n < lines.length then
            ["Highlight state converged at line ".toList ++ Text.ofInt (start + n + 1)]
          else []) := by
  intro start outcome rows
  obtain ⟨hr, hfault⟩ := h.recalls
  let update := s.highlighter.update s.config lines first
  have hstart : (s.highlighter.refresh s.config).startOf first lines = start :=
    hr.startOf_refresh s.config lines first
  have hrows : rows = update.highlighter.rows :=
    congrArg Highlighter.rows (Session.session_update s lines first hfault).1
  obtain ⟨hreread, hupdate⟩ := Highlighter.reread_update hr.wellFormed s.config lines first
  rw [hstart, hr.mode_eq, ← hrows] at hreread
  rw [hstart, ← hrows] at hupdate
  let again := (lines.drop start).take update.scanned
  let read := (rows.drop start).take update.scanned
  let before := s.highlighter.refreshEvents s.config ++
    (s.highlighter.refresh s.config).startEvents first
  have hevents : outcome.events = before ++ (Row.endings (start + 1) again read ++
      if start + update.scanned < lines.length then [.converged (start + 1 + update.scanned)]
      else []) :=
    (congrArg Outcome.events (Session.step_update hfault lines first)).trans hupdate
  have hlength : read.length = again.length := by
    rw [show read = _ from hreread.read, Row.readAgain, Mode.length_rows]
  have hagain : again.length = update.scanned := by
    rw [List.length_take_of_le]
    rw [List.length_drop]
    exact Nat.le_sub_of_add_le' hreread.within
  refine ⟨update.scanned, Session.reply_update hfault lines first, hreread, ?_, ?_, ?_⟩
  · -- nothing is counted before the first line is read
    have hbefore : Tally.ofEvents before = [] := by
      rw [Tally.ofEvents_append, Highlighter.tallies_refreshEvents,
        Highlighter.tallies_startEvents, List.append_nil]
    rw [show outcome.session.profiles = _ from s.profiles_step rfl]
    refine congrArg (s.profiles.modifyHead ·) (funext fun profile => ?_)
    rw [show (s.step (.update lines first)).events = _ from hevents, Profile.follow_eq_plus,
      Tally.ofEvents_append, hbefore, List.nil_append, ← Profile.follow_eq_plus]
    exact Row.follow_reread hlength profile
  · rw [hevents, List.filterMap_append, Highlighter.endOf?_notices, List.nil_append, ← hagain]
    exact Row.endOf?_reread hlength
  · rw [Log.ofEvents_eq_worded, hevents, List.filterMap_append, hr.message?_events,
      Row.message?_reread hlength, List.append_assoc, Int.add_right_comm]

/-- A line is put into a literal that goes on over several lines, and the line in front of it
now ends with a mark of escape.  So what is open agrees with an old row again only behind the
line that was put in. -/
theorem reports_inside_literal :
    let document := ["c4 'a".toList, "b".toList, "c'".toList, "d4".toList]
    let edited := ["c4 'a".toList, "b\\".toList, "x".toList, "c'".toList, "d4".toList]
    let s := ({} : Session).after [.enterProfile, .newHighlighter .blip none, .update document 0]
    let outcome := s.step (.update edited 1)
    Updating .blip s (some ⟨.default, document⟩) ∧
      Row.Reread .blip (Config.rules .default) s.highlighter.rows edited 1 2
        outcome.session.highlighter.rows ∧
      s.profiles = [⟨4, 5, 10⟩] ∧ outcome.session.profiles = [⟨6, 7, 13⟩] ∧
      Log.ofEvents outcome.events = Log.worded
        ["Line 2 ends inside 1 open literal(s)".toList,
          "Line 3 ends inside 1 open literal(s)".toList,
          "Highlight state converged at line 4".toList] := by
  intro document edited s outcome
  have h : Updating .blip s (some ⟨.default, document⟩) := .update document 0 (.begin _)
  obtain ⟨n, hreply, hreread, hprofiles, -, hlog⟩ := h.update_reports edited 1
  have hcount := hreply.symm.trans (Session.reply_update rfl edited 1)
  have hscanned : (s.highlighter.update s.config edited 1).scanned = 2 := by decide +kernel
  have hn : n = 2 := (Reply.count.inj (Except.ok.inj hcount)).trans hscanned
  subst hn
  refine ⟨h, hreread, by decide +kernel, hprofiles.trans (by decide +kernel), hlog.trans ?_⟩
  exact congrArg Log.worded (by decide +kernel)

end ChipHighlight
