import ChipHighlight.Proofs.Session.Editing
import ChipHighlight.Proofs.Session.Standing

/-!
# Parties of a session

Scans and the highlighter go on side by side in one session.  `heard` is what one of them
replies and reports while all of them go on, and `heard_alone` is the way to show that the
others do not matter: a relation to a session in which only the one goes on, which its own
commands keep on both sides and the commands for others on the one.

A command for a party changes neither the configuration nor what names lead to
(`keeps_step`), and the profile counts just its events (`profile_step`).  A scan is spared
by all commands but its own as long as it shares its cell with no other (`Apart.spares`).
-/

namespace ChipHighlight

/-- Who goes on in a session: one of its scans, or the highlighter. -/
inductive Party
  | scan (name : Text)
  | highlighter
deriving DecidableEq

def Party.among (names : List Text) : List Party := .highlighter :: names.map .scan

/-- Whom a command lets go on. -/
def Command.party? : Command → Option Party
  | pull name _ | closeScan name => some (.scan name)
  | update _ _ => some .highlighter
  | _ => none

def Command.isFor (party : Party) (command : Command) : Bool := command.party? = some party

theorem Command.party?_ne_none {command : Command} {parties : List Party}
    (h : ∃ party ∈ parties, command.party? = some party) : command.party? ≠ none := by
  obtain ⟨party, -, hparty⟩ := h
  rw [hparty]
  exact Option.some_ne_none party

namespace Session

/-- What a party replies and reports during a run. -/
def heard (party : Party) : Session → List Command → List (Except CommandFault Reply × List Event)
  | _, [] => []
  | s, command :: rest =>
    if command.isFor party then
      ((s.step command).reply, (s.step command).events) ::
        heard party (s.step command).session rest
    else heard party (s.step command).session rest

def eventsOf (party : Party) (s : Session) (commands : List Command) : List Event :=
  (s.heard party commands).flatMap Prod.snd

/-- **A party that is not aware of others** goes on as it would alone. -/
theorem heard_alone {R : Session → Session → Prop} {party : Party} {commands : List Command}
    (own : ∀ s t, ∀ command ∈ commands, command.isFor party → R s t →
      (s.step command).reply = (t.step command).reply ∧
        (s.step command).events = (t.step command).events ∧
        R (s.step command).session (t.step command).session)
    (other : ∀ s t, ∀ command ∈ commands, command.isFor party = false → R s t →
      R (s.step command).session t)
    {s t : Session} (h : R s t) :
    s.heard party commands = t.heard party (commands.filter (·.isFor party)) ∧
      R (s.after commands) (t.after (commands.filter (·.isFor party))) := by
  induction commands generalizing s t with
  | nil => exact ⟨rfl, h⟩
  | cons command rest ih =>
    have hrest := @ih (fun s t c hc => own s t c (List.mem_cons_of_mem command hc))
      (fun s t c hc => other s t c (List.mem_cons_of_mem command hc))
    rw [heard, after_cons]
    cases hfor : command.isFor party with
    | true =>
      obtain ⟨hreply, hevents, hstep⟩ := own s t command List.mem_cons_self hfor h
      obtain ⟨hheard, hafter⟩ := hrest hstep
      rw [List.filter_cons_of_pos hfor, heard, if_pos rfl, if_pos hfor, after_cons, hreply,
        hevents, hheard]
      exact ⟨rfl, hafter⟩
    | false =>
      obtain ⟨hheard, hafter⟩ := hrest (other s t command List.mem_cons_self hfor h)
      rw [List.filter_cons_of_neg (by rw [hfor]; exact Bool.false_ne_true),
        if_neg Bool.false_ne_true]
      exact ⟨hheard, hafter⟩

/-! ### What a command for a party can do -/

theorem step_pull_cases (s : Session) (name : Text) (n : Nat) :
    ((s.step (.pull name n)).session = s ∧ (s.step (.pull name n)).events = []) ∨
      ∃ running stack scan reply events, s.scans.get? name = some running ∧
        s.step (.pull name n) =
          ((s.leave stack running.carrier).putScan name
            ⟨scan, running.carrier.holding stack⟩).report reply events := by
  cases n with
  | zero => exact Or.inl ⟨rfl, rfl⟩
  | succ n =>
    cases hscan : s.scans.get? name with
    | none =>
      rw [show s.step (.pull name (n + 1)) = s.fail (.unknownName name) from
        withScan_eq_fail hscan _]
      exact Or.inl ⟨rfl, rfl⟩
    | some running =>
      exact Or.inr ⟨running, _, _, _, _, rfl,
        withScan_eq hscan fun running => s.pull name (n + 1) running⟩

theorem step_closeScan_cases (s : Session) (name : Text) :
    ((s.step (.closeScan name)).session = s ∧ (s.step (.closeScan name)).events = []) ∨
      ∃ running, s.scans.get? name = some running ∧
        s.step (.closeScan name) =
          (s.putScan name { running with scan := running.scan.close }).answer .done := by
  cases hscan : s.scans.get? name with
  | none =>
    rw [show s.step (.closeScan name) = s.fail (.unknownName name) from withScan_eq_fail hscan _]
    exact Or.inl ⟨rfl, rfl⟩
  | some running =>
    exact Or.inr ⟨running, rfl, withScan_eq hscan fun running =>
      (s.putScan name { running with scan := running.scan.close }).answer .done⟩

theorem step_update_cases (s : Session) (lines : List Text) (first : Int) :
    ((s.step (.update lines first)).session = s ∧
        (s.step (.update lines first)).events = s.highlighter.startEvents first) ∨
      ∃ highlighter reply events,
        s.step (.update lines first) =
          report { s with highlighter := highlighter } reply events := by
  rw [step, update]
  split
  · exact Or.inl ⟨rfl, rfl⟩
  · exact Or.inr ⟨_, _, _, rfl⟩

/-! ### What is kept -/

/-- The cell that a scan shares with a name, if there is such a scan and it does. -/
def homeOf (s : Session) (name : Text) : Option Nat :=
  (s.scans.get? name).bind fun running => running.carrier.cell?

theorem Stands.homeOf_eq {s : Session} {name : Text} {home : Option Nat} {stack : Stack}
    {moments : List Moment} (h : s.Stands name home stack moments) : s.homeOf name = home := by
  obtain ⟨running, hscan, hhome, -, -⟩ := h
  rw [homeOf, hscan]
  exact hhome

/-- **What no party changes.** -/
structure Keeps (s t : Session) : Prop where
  config_eq : t.config = s.config
  names_eq : t.names = s.names
  home_eq : ∀ name, t.homeOf name = s.homeOf name

section

variable {s t : Session} {command : Command} {name : Text}

theorem keeps_refl (s : Session) : s.Keeps s := ⟨rfl, rfl, fun _ => rfl⟩

theorem Keeps.trans {u : Session} (h : s.Keeps t) (k : t.Keeps u) : s.Keeps u :=
  ⟨k.config_eq.trans h.config_eq, k.names_eq.trans h.names_eq,
    fun name => (k.home_eq name).trans (h.home_eq name)⟩

theorem keeps_note (s : Session) (events : List Event) : s.Keeps (s.note events) := by
  rw [note_eq]
  exact ⟨rfl, rfl, fun _ => rfl⟩

theorem keeps_leave (s : Session) (stack : Stack) (carrier : Carrier) :
    s.Keeps (s.leave stack carrier) := by
  cases carrier <;> exact ⟨rfl, rfl, fun _ => rfl⟩

theorem homeOf_putScan (s : Session) (name other : Text) (scan : OpenScan) :
    (s.putScan name scan).homeOf other =
      if other = name then scan.carrier.cell? else s.homeOf other := by
  unfold homeOf
  rw [show (s.putScan name scan).scans.get? other = _ from
    Registry.get?_put name other scan s.scans]
  split
  · rfl
  · rfl

theorem keeps_putScan {running scan : OpenScan} (h : s.scans.get? name = some running)
    (hcell : scan.carrier.cell? = running.carrier.cell?) : s.Keeps (s.putScan name scan) := by
  refine ⟨rfl, rfl, ?_⟩
  intro other
  rw [homeOf_putScan]
  split
  · rename_i heq
    rw [heq, homeOf, h]
    exact hcell
  · rfl

/-- **No party changes the configuration, the names, or where a scan is at home.** -/
theorem keeps_step (h : command.party? ≠ none) : s.Keeps (s.step command).session := by
  cases command with
  | pull name n =>
    rcases step_pull_cases s name n with
      ⟨hsame, -⟩ | ⟨running, stack, scan, reply, events, hscan, hstep⟩
    · rw [hsame]
      exact keeps_refl s
    · rw [hstep]
      refine ((keeps_leave s stack running.carrier).trans ?_).trans (keeps_note _ events)
      rw [← scans_leave s stack running.carrier] at hscan
      exact keeps_putScan hscan (Carrier.cell?_holding _ _)
  | closeScan name =>
    rcases step_closeScan_cases s name with ⟨hsame, -⟩ | ⟨running, hscan, hstep⟩
    · rw [hsame]
      exact keeps_refl s
    · rw [hstep]
      exact keeps_putScan hscan rfl
  | update lines first =>
    rcases step_update_cases s lines first with ⟨hsame, -⟩ | ⟨highlighter, reply, events, hstep⟩
    · rw [hsame]
      exact keeps_refl s
    · rw [hstep]
      exact Keeps.trans (t := { s with highlighter := highlighter }) ⟨rfl, rfl, fun _ => rfl⟩
        (keeps_note _ events)
  | _ => exact absurd rfl h

/-- **The profile counts the events of a party**, and nothing else. -/
theorem profile_step (h : command.party? ≠ none) :
    (s.step command).session.profiles.head? =
      s.profiles.head?.map (·.follow (s.step command).events) := by
  have hnone : s.profiles.head? = s.profiles.head?.map (·.follow []) := (map_follow_nil _).symm
  cases command with
  | pull name n =>
    rcases step_pull_cases s name n with
      ⟨hsame, hevents⟩ | ⟨running, stack, scan, reply, events, -, hstep⟩
    · rw [hsame, hevents]
      exact hnone
    · rw [hstep]
      refine (head?_profiles_note _ events).trans ?_
      rw [show ((s.leave stack running.carrier).putScan name _).profiles = s.profiles from
        profiles_leave s stack running.carrier]
      rfl
  | closeScan name =>
    rcases step_closeScan_cases s name with ⟨hsame, hevents⟩ | ⟨running, -, hstep⟩
    · rw [hsame, hevents]
      exact hnone
    · rw [hstep]
      exact hnone
  | update lines first =>
    rcases step_update_cases s lines first with
      ⟨hsame, hevents⟩ | ⟨highlighter, reply, events, hstep⟩
    · -- a start that is not accepted is no line
      rw [hsame, hevents, Highlighter.startEvents]
      split
      · exact hnone
      · exact hnone
    · rw [hstep]
      exact head?_profiles_note _ events
  | _ => exact absurd rfl h

theorem keeps_after {commands : List Command}
    (h : ∀ command ∈ commands, command.party? ≠ none) : s.Keeps (s.after commands) :=
  after_induction (keeps_refl s) fun _ command hmem ht => ht.trans (keeps_step (h command hmem))

/-! ### Scans that are apart -/

/-- **Scans that share no cell with each other.** -/
structure Apart (s : Session) (names : List Text) : Prop where
  sound : s.Sound
  apart : ∀ a ∈ names, ∀ b ∈ names, ∀ cell,
    s.homeOf a = some cell → s.homeOf b = some cell → a = b

theorem Apart.step {names : List Text} (h : s.Apart names) (hparty : command.party? ≠ none) :
    (s.step command).session.Apart names := by
  have hhome := (keeps_step (s := s) hparty).home_eq
  refine ⟨h.sound.step command, ?_⟩
  intro a ha b hb cell hcell hcell'
  rw [hhome] at hcell hcell'
  exact h.apart a ha b hb cell hcell hcell'

theorem spares_leave (hs : s.Sound) {running : OpenScan} {other : Text}
    (hscan : s.scans.get? other = some running)
    (hapart : ∀ cell, s.homeOf name = some cell → s.homeOf other ≠ some cell) (stack : Stack) :
    s.Spares name (s.leave stack running.carrier) := by
  refine ⟨by rw [(keeps_leave s stack running.carrier).config_eq], by rw [scans_leave], ?_⟩
  intro mine hmine
  cases hcarrier : running.carrier with
  | own _ => rfl
  | shared cell =>
    cases hhome : mine.carrier with
    | own _ => rfl
    | shared home =>
      have hwithin := hs.scans_within other running hscan
      rw [hcarrier] at hwithin
      refine (cell_leave s stack hwithin home).trans (if_neg ?_)
      rintro rfl
      refine hapart home ?_ ?_
      · rw [homeOf, hmine, Option.bind_some, hhome]
        rfl
      · rw [homeOf, hscan, Option.bind_some, hcarrier]
        rfl

theorem spares_putScan {other : Text} (hne : name ≠ other) (scan : OpenScan) :
    s.Spares name (s.putScan other scan) :=
  ⟨rfl, (Registry.get?_put other name scan s.scans).trans (if_neg hne), fun _ _ => rfl⟩

theorem spares_note (s : Session) (name : Text) (events : List Event) :
    s.Spares name (s.note events) := by
  rw [note_eq]
  exact ⟨rfl, rfl, fun _ _ => rfl⟩

theorem Spares.trans {u : Session} (h : s.Spares name t) (k : t.Spares name u) :
    s.Spares name u := by
  refine ⟨k.rules_eq.trans h.rules_eq, k.scan_eq.trans h.scan_eq, ?_⟩
  intro running hrunning
  rw [k.stack_eq running (h.scan_eq.trans hrunning), h.stack_eq running hrunning]

/-- **A scan is spared** by the commands for others that are apart from it. -/
theorem Apart.spares {names : List Text} (h : s.Apart names) (hname : name ∈ names)
    (hparty : ∃ party ∈ Party.among names, command.party? = some party)
    (hother : command.isFor (.scan name) = false) : s.Spares name (s.step command).session := by
  obtain ⟨party, hmem, hfor⟩ := hparty
  have hne : party ≠ .scan name := by
    rintro rfl
    exact of_decide_eq_false hother hfor
  have hmine : ∀ other, party = .scan other → other ∈ names ∧ name ≠ other := by
    rintro other rfl
    refine ⟨by simpa [Party.among] using hmem, ?_⟩
    rintro rfl
    exact hne rfl
  have hself : s.Spares name s := ⟨rfl, rfl, fun _ _ => rfl⟩
  cases command with
  | pull other n =>
    obtain ⟨hother, hnames⟩ := hmine other (Option.some_inj.mp hfor).symm
    rcases step_pull_cases s other n with
      ⟨hsame, -⟩ | ⟨running, stack, scan, reply, events, hscan, hstep⟩
    · rwa [hsame]
    · rw [hstep]
      refine ((spares_leave h.sound hscan ?_ stack).trans (spares_putScan hnames _)).trans
        (spares_note _ name events)
      intro cell hcell hcell'
      exact hnames (h.apart name hname other hother cell hcell hcell')
  | closeScan other =>
    obtain ⟨-, hnames⟩ := hmine other (Option.some_inj.mp hfor).symm
    rcases step_closeScan_cases s other with ⟨hsame, -⟩ | ⟨running, -, hstep⟩
    · rwa [hsame]
    · rw [hstep]
      exact spares_putScan hnames _
  | update lines first =>
    rcases step_update_cases s lines first with ⟨hsame, -⟩ | ⟨highlighter, reply, events, hstep⟩
    · rwa [hsame]
    · rw [hstep]
      exact Spares.trans (t := { s with highlighter := highlighter }) ⟨rfl, rfl, fun _ _ => rfl⟩
        (spares_note _ name events)
  | _ => cases hfor

end

end Session

end ChipHighlight
