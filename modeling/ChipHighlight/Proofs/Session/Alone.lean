import ChipHighlight.Proofs.Session.Totals

/-!
# One among others

Scans that share no cell and the highlighter go on in any order.  Each comes to what it
comes to alone: its own commands find the same scan and the same stack, or the same
highlighter, and the others leave it alone (`scan_heard_alone`, `highlighter_heard_alone`).
A scan that meets its end reports all that it still came to, however often it was asked
(`eventsOf_of_meetsEnd`).
-/

namespace ChipHighlight

def Outcome.atEnd (outcome : Outcome) : Bool :=
  match outcome.reply with
  | .ok (.batch _ finished) => finished
  | _ => false

namespace Session

/-! ### One scan among others -/

theorem isFor_scan {command : Command} {name : Text} (h : command.isFor (.scan name) = true) :
    (∃ n, command = .pull name n) ∨ command = .closeScan name := by
  have hfor : command.party? = some (.scan name) := of_decide_eq_true h
  cases command with
  | pull other n =>
    cases hfor
    exact Or.inl ⟨n, rfl⟩
  | closeScan other =>
    cases hfor
    exact Or.inr rfl
  | _ => cases hfor

section

variable {s t : Session} {names : List Text} {name : Text} {home : Option Nat} {stack : Stack}
  {moments : List Moment} {commands : List Command}

theorem Stands.own (hs : s.Sound) (ht : t.Sound) (h : s.Stands name home stack moments)
    (k : t.Stands name home stack moments) {command : Command}
    (hfor : command.isFor (.scan name) = true) :
    (s.step command).reply = (t.step command).reply ∧
      (s.step command).events = (t.step command).events ∧
      ∃ stack moments, (s.step command).session.Stands name home stack moments ∧
        (t.step command).session.Stands name home stack moments := by
  rcases isFor_scan hfor with ⟨n, rfl⟩ | rfl
  · obtain ⟨hreply, hevents, hstands, -⟩ := h.pull hs n
    obtain ⟨kreply, kevents, kstands, -⟩ := k.pull ht n
    exact ⟨hreply.trans kreply.symm, hevents.trans kevents.symm, _, _, hstands, kstands⟩
  · obtain ⟨hreply, hevents, hstands⟩ := h.closeScan
    obtain ⟨kreply, kevents, kstands⟩ := k.closeScan
    exact ⟨hreply.trans kreply.symm, hevents.trans kevents.symm, _, _, hstands, kstands⟩

/-- **A scan among others goes on as it does alone.** -/
theorem scan_heard_alone (hs : s.Apart names) (ht : t.Sound) (hname : name ∈ names)
    (h : s.Stands name home stack moments) (k : t.Stands name home stack moments)
    (hparties : ∀ command ∈ commands,
      ∃ party ∈ Party.among names, command.party? = some party) :
    s.heard (.scan name) commands =
        t.heard (.scan name) (commands.filter (·.isFor (.scan name))) ∧
      ∃ stack moments, (s.after commands).Stands name home stack moments ∧
        (t.after (commands.filter (·.isFor (.scan name)))).Stands name home stack moments := by
  let R (u v : Session) : Prop := u.Apart names ∧ v.Sound ∧
    ∃ stack moments, u.Stands name home stack moments ∧ v.Stands name home stack moments
  have hparty : ∀ command ∈ commands, command.party? ≠ none :=
    fun command hmem => Command.party?_ne_none (hparties command hmem)
  have hown : ∀ u v, ∀ command ∈ commands, command.isFor (.scan name) → R u v →
      (u.step command).reply = (v.step command).reply ∧
        (u.step command).events = (v.step command).events ∧
        R (u.step command).session (v.step command).session := by
    rintro u v command hmem hfor ⟨hu, hv, stack, moments, hstands, kstands⟩
    obtain ⟨hreply, hevents, hafter⟩ := hstands.own hu.sound hv kstands hfor
    exact ⟨hreply, hevents, hu.step (hparty command hmem), hv.step command, hafter⟩
  have hother : ∀ u v, ∀ command ∈ commands, command.isFor (.scan name) = false → R u v →
      R (u.step command).session v := by
    rintro u v command hmem hfor ⟨hu, hv, stack, moments, hstands, kstands⟩
    have hspares := hu.spares hname (hparties command hmem) hfor
    exact ⟨hu.step (hparty command hmem), hv, stack, moments, hstands.of_spares hspares, kstands⟩
  obtain ⟨hheard, -, -, hafter⟩ := heard_alone hown hother ⟨hs, ht, stack, moments, h, k⟩
  exact ⟨hheard, hafter⟩

/-- A scan meets its end during a run, and is not closed before. -/
def MeetsEnd (s : Session) (name : Text) (commands : List Command) : Prop :=
  ∃ front n rest, commands = front ++ .pull name n :: rest ∧ .closeScan name ∉ front ∧
    ((s.after front).step (.pull name n)).atEnd = true

theorem eventsOf_of_not_closed (hs : s.Apart names) (hname : name ∈ names)
    (h : s.Stands name home stack moments)
    (hparties : ∀ command ∈ commands, ∃ party ∈ Party.among names, command.party? = some party)
    (hopen : .closeScan name ∉ commands) :
    ∃ stack left, (s.after commands).Stands name home stack left ∧
      s.eventsOf (.scan name) commands ++ Moment.events left = Moment.events moments := by
  induction commands generalizing s stack moments with
  | nil => exact ⟨stack, moments, h, rfl⟩
  | cons command rest ih =>
    obtain ⟨hcommand, hrest⟩ := List.forall_mem_cons.mp hparties
    have hstep := hs.step (Command.party?_ne_none hcommand)
    have hopen' : .closeScan name ∉ rest := fun hmem => hopen (List.mem_cons_of_mem command hmem)
    rw [eventsOf_cons, after_cons]
    cases hfor : command.isFor (.scan name) with
    | true =>
      rcases isFor_scan hfor with ⟨n, rfl⟩ | rfl
      · obtain ⟨-, hevents, hstands, -⟩ := h.pull hs.sound n
        obtain ⟨stack, left, hafter, hleft⟩ := ih hstep hstands hrest hopen'
        refine ⟨stack, left, hafter, ?_⟩
        rw [if_pos rfl, hevents, List.append_assoc, hleft, ← Moment.events_append,
          Moment.upTo_append_beyond]
      · exact absurd List.mem_cons_self hopen
    | false =>
      have hspares := hs.spares hname hcommand hfor
      rw [if_neg Bool.false_ne_true, List.nil_append]
      exact ih hstep (h.of_spares hspares) hrest hopen'

theorem eventsOf_of_nothing_left (hs : s.Apart names) (hname : name ∈ names)
    (h : s.Stands name home stack [])
    (hparties : ∀ command ∈ commands, ∃ party ∈ Party.among names, command.party? = some party) :
    s.eventsOf (.scan name) commands = [] := by
  induction commands generalizing s stack with
  | nil => rfl
  | cons command rest ih =>
    obtain ⟨hcommand, hrest⟩ := List.forall_mem_cons.mp hparties
    have hstep := hs.step (Command.party?_ne_none hcommand)
    rw [eventsOf_cons]
    cases hfor : command.isFor (.scan name) with
    | true =>
      rcases isFor_scan hfor with ⟨n, rfl⟩ | rfl
      · obtain ⟨-, hevents, hstands, -⟩ := h.pull hs.sound n
        rw [Moment.upTo_nil] at hevents
        rw [Moment.beyond_nil] at hstands
        rw [if_pos rfl, hevents, ih hstep hstands hrest]
        rfl
      · obtain ⟨-, hevents, hstands⟩ := h.closeScan
        rw [if_pos rfl, hevents, ih hstep hstands hrest]
        rfl
    | false =>
      have hspares := hs.spares hname hcommand hfor
      rw [if_neg Bool.false_ne_true, ih hstep (h.of_spares hspares) hrest]
      rfl

/-- **A scan that meets its end** has reported all events of its job, however often and for
how many tokens it was asked. -/
theorem eventsOf_of_meetsEnd (hs : s.Apart names) (hname : name ∈ names)
    (h : s.Stands name home stack moments)
    (hparties : ∀ command ∈ commands, ∃ party ∈ Party.among names, command.party? = some party)
    (hend : s.MeetsEnd name commands) :
    s.eventsOf (.scan name) commands = Moment.events moments := by
  obtain ⟨front, n, rest, rfl, hopen, hfinished⟩ := hend
  obtain ⟨hfront, hparties⟩ := List.forall_mem_append.mp hparties
  obtain ⟨hpull, hrest⟩ := List.forall_mem_cons.mp hparties
  obtain ⟨stack, left, hstands, hleft⟩ := eventsOf_of_not_closed hs hname h hfront hopen
  have ht : (s.after front).Apart names :=
    after_induction (motive := fun u => u.Apart names) hs fun _ c hmem hu =>
      hu.step (Command.party?_ne_none (hfront c hmem))
  obtain ⟨hreply, hevents, hafter, -⟩ := hstands.pull ht.sound n
  -- the end is met, so nothing is left behind it
  have hlt : (Moment.tokens left).length < n := by
    rw [Outcome.atEnd, hreply] at hfinished
    exact of_decide_eq_true hfinished
  rw [Moment.upTo_eq_self hlt] at hevents
  rw [Moment.beyond_eq_nil hlt] at hafter
  have hstep := ht.step (Command.party?_ne_none hpull)
  have hfor : (Command.pull name n).isFor (.scan name) = true := decide_eq_true rfl
  rw [eventsOf_append, eventsOf_cons, if_pos hfor, hevents,
    eventsOf_of_nothing_left hstep hname hafter hrest, List.append_nil, hleft]

end

/-! ### The highlighter among scans -/

section

variable {s t : Session} {names : List Text} {commands : List Command}

theorem update_congr (hconfig : t.config = s.config) (h : s.SameHighlighter t) (lines : List Text)
    (first : Int) :
    (s.step (.update lines first)).reply = (t.step (.update lines first)).reply ∧
      (s.step (.update lines first)).events = (t.step (.update lines first)).events ∧
      (s.step (.update lines first)).session.SameHighlighter
        (t.step (.update lines first)).session := by
  obtain ⟨hh, hf⟩ := h
  rw [step, step, update, update, hh, hf, hconfig]
  split
  · exact ⟨rfl, rfl, hh, hf⟩
  · let updated := s.highlighter.update s.config lines first
    let u : Session := { s with highlighter := updated.highlighter }
    let v : Session :=
      { t with config := s.config, highlighter := updated.highlighter, startFault := s.startFault }
    obtain ⟨hu, hu'⟩ := sameHighlighter_report (s := u) ⟨rfl, rfl⟩ (.count updated.scanned)
      updated.events
    obtain ⟨hv, hv'⟩ := sameHighlighter_report (s := v) ⟨rfl, rfl⟩ (.count updated.scanned)
      updated.events
    exact ⟨rfl, rfl, hv.trans hu.symm, hv'.trans hu'.symm⟩

/-- **The highlighter among scans goes on as it does alone.** -/
theorem highlighter_heard_alone (hconfig : t.config = s.config) (h : s.SameHighlighter t)
    (hparties : ∀ command ∈ commands, ∃ party ∈ Party.among names, command.party? = some party) :
    s.heard .highlighter commands =
        t.heard .highlighter (commands.filter (·.isFor .highlighter)) ∧
      (s.after commands).SameHighlighter
        (t.after (commands.filter (·.isFor .highlighter))) := by
  let R (u v : Session) : Prop := v.config = u.config ∧ u.SameHighlighter v
  have hkeeps : ∀ (u : Session), ∀ command ∈ commands, u.Keeps (u.step command).session :=
    fun u command hmem => keeps_step (Command.party?_ne_none (hparties command hmem))
  have hown : ∀ u v, ∀ command ∈ commands, command.isFor .highlighter → R u v →
      (u.step command).reply = (v.step command).reply ∧
        (u.step command).events = (v.step command).events ∧
        R (u.step command).session (v.step command).session := by
    rintro u v command hmem hfor ⟨hconfig, hsame⟩
    have hafter : (v.step command).session.config = (u.step command).session.config := by
      rw [(hkeeps v command hmem).config_eq, (hkeeps u command hmem).config_eq, hconfig]
    have hparty : command.party? = some .highlighter := of_decide_eq_true hfor
    cases command with
    | update lines first =>
      obtain ⟨hreply, hevents, hh⟩ := update_congr hconfig hsame lines first
      exact ⟨hreply, hevents, hafter, hh⟩
    | _ => cases hparty
  have hother : ∀ u v, ∀ command ∈ commands, command.isFor .highlighter = false → R u v →
      R (u.step command).session v := by
    rintro u v command hmem hfor ⟨hconfig, hh, hf⟩
    refine ⟨hconfig.trans (hkeeps u command hmem).config_eq.symm, ?_⟩
    have hreach : command.reachesHighlighter = false := by
      obtain ⟨party, -, hparty⟩ := hparties command hmem
      cases command with
      | update lines first => exact absurd rfl (of_decide_eq_false hfor)
      | newHighlighter mode fault => cases hparty
      | _ => rfl
    obtain ⟨kh, kf⟩ := sameHighlighter_step (s := u) hreach
    exact ⟨hh.trans kh.symm, hf.trans kf.symm⟩
  obtain ⟨hheard, -, hafter⟩ := heard_alone hown hother ⟨hconfig, h⟩
  exact ⟨hheard, hafter⟩

end

end Session

end ChipHighlight
