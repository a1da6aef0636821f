import ChipHighlight.Proofs.Session.Alone
import ChipHighlight.Proofs.Session.Pulling

/-!
# Scans that are interleaved

Scans of different stacks are opened together (`Admits`), and then they and the highlighter
go on in any order.  They are apart from then on (`Admits.apart`), so each gives what it
gives when it is opened alone and asked the same, and leaves the same in its stack.

The profile is shared by all, and counts for each what it counts alone.  Once all scans met
their ends that is what their jobs count when they are run at once, which no order of asking
can change.
-/

namespace ChipHighlight.Session

/-! ### Scans that are opened together -/

/-- The commands that open some scans, each under its name. -/
def openings (iterators : List (Text × Job)) : List Command :=
  iterators.map fun i => .openScan i.1 i.2

section

variable {s t : Session} {iterators : List (Text × Job)} {name : Text}

theorem Provides.of_names {job : Job} {carrier : Carrier} (h : s.Provides job carrier)
    (hnames : t.names = s.names) : t.Provides job carrier := by
  cases h with
  | own hnone => exact .own hnone
  | shared hname hcell => exact .shared hname (hnames ▸ hcell)

theorem after_openings (h : ∀ i ∈ iterators, ∃ carrier, s.Provides i.2 carrier) :
    s.after (openings iterators) =
      { s with scans := (s.after (openings iterators)).scans } := by
  induction iterators generalizing s with
  | nil => rfl
  | cons i rest ih =>
    obtain ⟨⟨carrier, hcarrier⟩, hrest⟩ := List.forall_mem_cons.mp h
    have hafter := @ih (s.putScan i.1 ⟨i.2.scan, carrier⟩) fun j hj =>
      (hrest j hj).imp fun _ hj => hj.of_names rfl
    rw [openings, List.map_cons, after_cons, step_openScan hcarrier]
    exact hafter

theorem spares_openings (h : ∀ i ∈ iterators, ∃ carrier, s.Provides i.2 carrier)
    (hname : name ∉ iterators.map Prod.fst) : s.Spares name (s.after (openings iterators)) := by
  induction iterators generalizing s with
  | nil => exact ⟨rfl, rfl, fun _ _ => rfl⟩
  | cons i rest ih =>
    obtain ⟨⟨carrier, hcarrier⟩, hrest⟩ := List.forall_mem_cons.mp h
    obtain ⟨hne, hothers⟩ := not_or.mp (mt List.mem_cons.mpr hname)
    have hspares := @ih (s.putScan i.1 ⟨i.2.scan, carrier⟩)
      (fun j hj => (hrest j hj).imp fun _ hj => hj.of_names rfl) hothers
    rw [openings, List.map_cons, after_cons, step_openScan hcarrier]
    exact (spares_putScan hne _).trans hspares

/-- **Scans that were just opened** all stand at their beginnings. -/
theorem stands_openings (h : ∀ i ∈ iterators, ∃ carrier, s.Provides i.2 carrier)
    (hnames : (iterators.map Prod.fst).Nodup) {i : Text × Job} (hi : i ∈ iterators)
    {carrier : Carrier} (hcarrier : s.Provides i.2 carrier) :
    (s.after (openings iterators)).Stands i.1 carrier.cell? (s.carried carrier)
      (i.2.moments s.config.rules (s.carried carrier)) := by
  induction iterators generalizing s with
  | nil => cases hi
  | cons first rest ih =>
    obtain ⟨⟨other, hother⟩, hrest⟩ := List.forall_mem_cons.mp h
    obtain ⟨hfirst, hnodup⟩ := List.nodup_cons.mp hnames
    let u := s.putScan first.1 ⟨first.2.scan, other⟩
    have hu : (s.step (.openScan first.1 first.2)).session = u :=
      congrArg Outcome.session (step_openScan hother)
    have hopen : ∀ j ∈ rest, ∃ carrier, u.Provides j.2 carrier := fun j hj =>
      (hrest j hj).imp fun _ hj => hj.of_names rfl
    rw [openings, List.map_cons, after_cons, hu]
    rcases List.mem_cons.mp hi with rfl | hi
    · have hstands : (s.step (.openScan i.1 i.2)).session.Stands i.1 _ _ _ :=
        stands_openScan hcarrier
      rw [hu] at hstands
      exact hstands.of_spares (spares_openings hopen hfirst)
    · have hcarried : u.carried carrier = s.carried carrier := by cases carrier <;> rfl
      rw [← hcarried]
      exact ih hopen hnodup hi (hcarrier.of_names rfl)

end

/-! ### Scans that can be opened together -/

/-- **Scans that can be opened together**: under different names, for jobs that go on from
different stacks or from none. -/
structure Admits (s : Session) (iterators : List (Text × Job)) : Prop where
  names_nodup : (iterators.map Prod.fst).Nodup
  stacks_inj : ∀ i ∈ iterators, ∀ j ∈ iterators, ∀ name,
    i.2.stackName? = some name → j.2.stackName? = some name → i = j
  opens : ∀ i ∈ iterators, (s.step (.openScan i.1 i.2)).reply = .ok .done

theorem Stands.reply_showStack {s : Session} {name shown : Text} {cell : Nat} {stack : Stack}
    {moments : List Moment} (h : s.Stands name (some cell) stack moments)
    (hcell : s.names.get? shown = some cell) :
    (s.step (.showStack shown)).reply = .ok (.stack stack) := by
  have hstep : (s.step (.showStack shown)).reply = .ok (.stack (s.cell cell)) := by
    show (s.withCell shown _).reply = _
    rw [withCell, hcell]
    rfl
  rw [hstep, h.cell_eq rfl]

namespace Admits

variable {s : Session} {iterators : List (Text × Job)} {commands : List Command}

theorem provides (h : s.Admits iterators) : ∀ i ∈ iterators, ∃ carrier, s.Provides i.2 carrier :=
  fun i hi => exists_provides (h.opens i hi)

theorem apart (h : s.Admits iterators) (hs : s.Sound) :
    (s.after (openings iterators)).Apart (iterators.map Prod.fst) := by
  refine ⟨after_induction hs fun _ command _ ht => ht.step command, ?_⟩
  -- a scan is at home in the cell of the stack that its job names
  have hhome : ∀ i ∈ iterators, ∀ cell, (s.after (openings iterators)).homeOf i.1 = some cell →
      ∃ name, i.2.stackName? = some name ∧ s.names.get? name = some cell := by
    intro i hi cell hcell
    obtain ⟨carrier, hcarrier⟩ := h.provides i hi
    rw [(stands_openings h.provides h.names_nodup hi hcarrier).homeOf_eq] at hcell
    cases hcarrier with
    | own _ => cases hcell
    | shared hname hget =>
      cases hcell
      exact ⟨_, hname, hget⟩
  intro a ha b hb cell hcell hcell'
  obtain ⟨i, hi, rfl⟩ := List.mem_map.mp ha
  obtain ⟨j, hj, rfl⟩ := List.mem_map.mp hb
  obtain ⟨name, hname, hget⟩ := hhome i hi cell hcell
  obtain ⟨other, hother, hget'⟩ := hhome j hj cell hcell'
  rw [hs.names_inj other name cell hget' hget] at hother
  rw [h.stacks_inj i hi j hj name hname hother]

/-- **Each scan goes on as it does when it is opened alone.** -/
theorem scan_alone (h : s.Admits iterators) (hs : s.Sound)
    (hparties : ∀ command ∈ commands,
      ∃ party ∈ Party.among (iterators.map Prod.fst), command.party? = some party)
    {i : Text × Job} (hi : i ∈ iterators) :
    let t := s.after (openings iterators)
    let alone := (s.step (.openScan i.1 i.2)).session
    let own := commands.filter (·.isFor (.scan i.1))
    t.heard (.scan i.1) commands = alone.heard (.scan i.1) own ∧
      ∀ name, i.2.stackName? = some name → ∃ stack,
        ((t.after commands).step (.showStack name)).reply = .ok (.stack stack) ∧
          ((alone.after own).step (.showStack name)).reply = .ok (.stack stack) := by
  intro t alone own
  obtain ⟨carrier, hcarrier⟩ := h.provides i hi
  obtain ⟨hheard, stack, moments, hstands, kstands⟩ :=
    scan_heard_alone (h.apart hs) (hs.step (.openScan i.1 i.2)) (List.mem_map_of_mem hi)
      (stands_openings h.provides h.names_nodup hi hcarrier) (stands_openScan hcarrier) hparties
  refine ⟨hheard, ?_⟩
  intro name hname
  cases hcarrier with
  | own hnone =>
    rw [hname] at hnone
    cases hnone
  | @shared _ cell hshared hcell =>
    obtain rfl := Option.some_inj.mp (hname.symm.trans hshared)
    have hopened : t = { s with scans := t.scans } := after_openings h.provides
    have htogether : (t.after commands).names = s.names := by
      rw [(keeps_after fun c hc => Command.party?_ne_none (hparties c hc)).names_eq, hopened]
    have halone : (alone.after own).names = s.names := by
      rw [(keeps_after fun c hc => Command.party?_ne_none
        (hparties c (List.mem_of_mem_filter hc))).names_eq]
      exact congrArg (fun o => o.session.names) (step_openScan (.shared hshared hcell))
    refine ⟨stack, hstands.reply_showStack ?_, kstands.reply_showStack ?_⟩
    · rw [htogether]
      exact hcell
    · rw [halone]
      exact hcell

/-- **The highlighter goes on as it does without scans.** -/
theorem highlighter_alone (h : s.Admits iterators)
    (hparties : ∀ command ∈ commands,
      ∃ party ∈ Party.among (iterators.map Prod.fst), command.party? = some party) :
    let t := s.after (openings iterators)
    let updates := commands.filter (·.isFor .highlighter)
    t.heard .highlighter commands = s.heard .highlighter updates ∧
      (t.after commands).highlighter = (s.after updates).highlighter := by
  intro t updates
  have hopened : t = { s with scans := t.scans } := after_openings h.provides
  have hsame : t.SameHighlighter s := by
    rw [hopened]
    exact ⟨rfl, rfl⟩
  obtain ⟨hheard, hsame⟩ :=
    highlighter_heard_alone (show s.config = t.config by rw [hopened]) hsame hparties
  exact ⟨hheard, hsame.1.symm⟩

/-- **The profile counts for each what it counts alone.** -/
theorem profile (h : s.Admits iterators) (hs : s.Sound)
    (hparties : ∀ command ∈ commands,
      ∃ party ∈ Party.among (iterators.map Prod.fst), command.party? = some party) :
    ((s.after (openings iterators)).after commands).profiles.head? =
      s.profiles.head?.map (·.follow
        (s.eventsOf .highlighter (commands.filter (·.isFor .highlighter)) ++
          iterators.flatMap fun i => (s.step (.openScan i.1 i.2)).session.eventsOf (.scan i.1)
            (commands.filter (·.isFor (.scan i.1))))) := by
  let t := s.after (openings iterators)
  have hprofiles : t.profiles = s.profiles := by rw [show t = _ from after_openings h.provides]
  have hupdates : t.eventsOf .highlighter commands =
      s.eventsOf .highlighter (commands.filter (·.isFor .highlighter)) :=
    congrArg (List.flatMap Prod.snd) (h.highlighter_alone hparties).1
  have hscans : ∀ i ∈ iterators, t.eventsOf (.scan i.1) commands =
      (s.step (.openScan i.1 i.2)).session.eventsOf (.scan i.1)
        (commands.filter (·.isFor (.scan i.1))) :=
    fun i hi => congrArg (List.flatMap Prod.snd) (h.scan_alone hs hparties hi).1
  rw [profile_among h.names_nodup hparties, List.flatMap_map, hprofiles, hupdates,
    List.flatMap_congr hscans]

/-- **A scan that meets its end counts as much as its job**, run at once. -/
theorem eventsOf_eq_run (h : s.Admits iterators) (hs : s.Sound)
    (hparties : ∀ command ∈ commands,
      ∃ party ∈ Party.among (iterators.map Prod.fst), command.party? = some party)
    {i : Text × Job} (hi : i ∈ iterators)
    (hend : (s.after (openings iterators)).MeetsEnd i.1 commands) :
    (s.step (.openScan i.1 i.2)).session.eventsOf (.scan i.1)
        (commands.filter (·.isFor (.scan i.1))) = (s.step (.run i.2)).events := by
  obtain ⟨carrier, hcarrier⟩ := h.provides i hi
  obtain ⟨_, -, hrun⟩ := came_run hs hcarrier
  have hstands := stands_openings h.provides h.names_nodup hi hcarrier
  rw [hrun.events_eq, ← eventsOf_of_meetsEnd (h.apart hs) (List.mem_map_of_mem hi) hstands
    hparties hend]
  exact congrArg (List.flatMap Prod.snd) (h.scan_alone hs hparties hi).1.symm

end Admits

/-- **Scans that are interleaved do not interfere.**  Scans of different stacks are opened,
and then they and the highlighter go on in any order.  Each scan gives what it gives when it
is opened alone and asked the same, and leaves the same in its stack, and so does each
update.  The profile counts for each what it counts alone; once all scans met their ends,
that is what running the jobs at once counts, and what the updates count. -/
theorem interleaved_as_alone (before : List Command) (iterators : List (Text × Job))
    (commands : List Command) :
    let s := ({} : Session).after before
    let t := s.after (openings iterators)
    let alone (i : Text × Job) := (s.step (.openScan i.1 i.2)).session
    let own (i : Text × Job) := commands.filter (·.isFor (.scan i.1))
    let updates := commands.filter (·.isFor .highlighter)
    s.Admits iterators →
    (∀ command ∈ commands,
      ∃ party ∈ Party.among (iterators.map Prod.fst), command.party? = some party) →
    (∀ i ∈ iterators,
      t.heard (.scan i.1) commands = (alone i).heard (.scan i.1) (own i) ∧
        ∀ name, i.2.stackName? = some name → ∃ stack,
          ((t.after commands).step (.showStack name)).reply = .ok (.stack stack) ∧
            (((alone i).after (own i)).step (.showStack name)).reply = .ok (.stack stack)) ∧
      (t.heard .highlighter commands = s.heard .highlighter updates ∧
        (t.after commands).highlighter = (s.after updates).highlighter) ∧
      (t.after commands).profiles.head? = s.profiles.head?.map (·.follow
        (s.eventsOf .highlighter updates ++
          iterators.flatMap fun i => (alone i).eventsOf (.scan i.1) (own i))) ∧
      ((∀ i ∈ iterators, t.MeetsEnd i.1 commands) →
        (t.after commands).profiles.head? = s.profiles.head?.map (·.follow
          (s.eventsOf .highlighter updates ++
            iterators.flatMap fun i => (s.step (.run i.2)).events))) := by
  intro s t alone own updates h hparties
  have hs : s.Sound := sound_after before
  refine ⟨fun i hi => h.scan_alone hs hparties hi, h.highlighter_alone hparties,
    h.profile hs hparties, ?_⟩
  intro hends
  have hevents : ∀ i ∈ iterators,
      (alone i).eventsOf (.scan i.1) (own i) = (s.step (.run i.2)).events :=
    fun i hi => h.eventsOf_eq_run hs hparties hi (hends i hi)
  rw [h.profile hs hparties, List.flatMap_congr hevents]

/-- A line is begun, a document of two lines is read, and the highlighter is updated, before
the line ends inside of a literal. -/
theorem line_around_document :
    let before : List Command := [.enterProfile, .newStack "s".toList []]
    let line : Job := .line .blip false 1 (some "s".toList) "c4 'd".toList
    let document : Job := .document .blip false "e5 f\ng".toList
    let iterators := [("a".toList, line), ("b".toList, document)]
    let commands : List Command :=
      [.pull "a".toList 1, .pull "b".toList 2, .update ["c4".toList] 0, .pull "b".toList 9,
        .pull "a".toList 9]
    let s := ({} : Session).after before
    let t := s.after (openings iterators)
    s.Admits iterators ∧
      (∀ command ∈ commands,
        ∃ party ∈ Party.among (iterators.map Prod.fst), command.party? = some party) ∧
      (∀ i ∈ iterators, t.MeetsEnd i.1 commands) ∧
      (t.after commands).profiles.head? = some ⟨4, 6, 12⟩ := by
  intro before line document iterators commands s t
  have h : s.Admits iterators := by
    refine ⟨by decide, ?_, List.forall_mem_cons.mpr ⟨rfl, List.forall_mem_singleton.mpr rfl⟩⟩
    simp [iterators, line, document, Job.stackName?]
  have hparties : ∀ command ∈ commands,
      ∃ party ∈ Party.among (iterators.map Prod.fst), command.party? = some party := by
    simp [iterators, commands, Party.among, Command.party?]
  have hends : ∀ i ∈ iterators, t.MeetsEnd i.1 commands := by
    refine List.forall_mem_cons.mpr ⟨⟨commands.take 4, 9, [], rfl, ?_, ?_⟩,
      List.forall_mem_singleton.mpr ⟨commands.take 3, 9, commands.drop 4, rfl, ?_, ?_⟩⟩
    · simp [commands]
    · decide +kernel
    · simp [commands]
    · decide +kernel
  have hprofile := (interleaved_as_alone before iterators commands h hparties).2.2.2 hends
  exact ⟨h, hparties, hends, hprofile.trans (by decide +kernel)⟩

end ChipHighlight.Session
