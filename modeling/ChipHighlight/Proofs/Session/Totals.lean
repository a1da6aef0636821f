import ChipHighlight.Proofs.Session.Parties
import Mathlib.Data.List.Nodup
import Mathlib.Data.List.Perm.Basic

/-!
# What profiles add up

The profile is the one thing that all parties of a session share.  It adds up what the ends
of lines say, and in a sum the order does not matter (`Profile.follow_perm`).  So the events
of a run can be sorted by the party that they belong to (`reported_perm`).
-/

namespace ChipHighlight

theorem Profile.note_comm (p : Profile) (a b : Event) : (p.note a).note b = (p.note b).note a := by
  cases a with
  | lineEnd _ chars tokens _ =>
    cases b with
    | lineEnd _ chars' tokens' _ =>
      exact congrArg₂ (Profile.mk _) (Int.add_right_comm ..) (Int.add_right_comm ..)
    | _ => rfl
  | _ => rfl

/-- **A profile does not depend on the order of events.** -/
theorem Profile.follow_perm (p : Profile) {events others : List Event} (h : events.Perm others) :
    p.follow events = p.follow others := by
  have : RightCommutative Profile.note := ⟨Profile.note_comm⟩
  exact h.foldl_eq p

namespace Session

def reported : Session → List Command → List Event
  | _, [] => []
  | s, command :: rest => (s.step command).events ++ reported (s.step command).session rest

/-- **A profile counts the events of all parties.** -/
theorem profile_after {s : Session} {commands : List Command}
    (h : ∀ command ∈ commands, command.party? ≠ none) :
    (s.after commands).profiles.head? = s.profiles.head?.map (·.follow (s.reported commands)) := by
  induction commands generalizing s with
  | nil => exact (map_follow_nil _).symm
  | cons command rest ih =>
    rw [after_cons, ih fun c hc => h c (List.mem_cons_of_mem command hc),
      profile_step (h command List.mem_cons_self), map_follow_append, reported]

theorem eventsOf_cons (party : Party) (s : Session) (command : Command) (rest : List Command) :
    s.eventsOf party (command :: rest) =
      (if command.isFor party then (s.step command).events else []) ++
        (s.step command).session.eventsOf party rest := by
  unfold eventsOf
  rw [heard]
  split
  · rfl
  · rfl

theorem eventsOf_append (party : Party) (s : Session) (front rest : List Command) :
    s.eventsOf party (front ++ rest) =
      s.eventsOf party front ++ (s.after front).eventsOf party rest := by
  induction front generalizing s with
  | nil => rfl
  | cons command front ih =>
    rw [List.cons_append, eventsOf_cons, eventsOf_cons, ih, List.append_assoc, after_cons]

theorem flatMap_party {parties : List Party} (hnodup : parties.Nodup) {command : Command}
    {party : Party} (hmem : party ∈ parties) (hfor : command.party? = some party)
    (events : List Event) :
    (parties.flatMap fun other => if command.isFor other then events else []) = events := by
  have hiff : ∀ other, command.isFor other = true ↔ other = party := by
    intro other
    rw [Command.isFor, hfor, decide_eq_true_iff, Option.some_inj]
    exact eq_comm
  induction parties with
  | nil => exact absurd hmem List.not_mem_nil
  | cons first rest ih =>
    obtain ⟨hfirst, hrest⟩ := List.nodup_cons.mp hnodup
    rw [List.flatMap_cons]
    rcases List.mem_cons.mp hmem with rfl | hmem
    · have hnone : ∀ other ∈ rest, (if command.isFor other then events else []) = [] := by
        intro other hother
        refine if_neg fun h => hfirst ?_
        rwa [← (hiff other).mp h]
      rw [if_pos ((hiff party).mpr rfl), List.flatMap_eq_nil_iff.mpr hnone, List.append_nil]
    · have hne : ¬ command.isFor first = true := by
        intro h
        rw [(hiff first).mp h] at hfirst
        exact hfirst hmem
      rw [if_neg hne, List.nil_append, ih hrest hmem]

/-- **The events of a run, sorted by parties.** -/
theorem reported_perm {parties : List Party} (hnodup : parties.Nodup) {s : Session}
    {commands : List Command}
    (h : ∀ command ∈ commands, ∃ party ∈ parties, command.party? = some party) :
    (s.reported commands).Perm (parties.flatMap fun party => s.eventsOf party commands) := by
  induction commands generalizing s with
  | nil =>
    have hnone : (parties.flatMap fun party => s.eventsOf party []) = [] :=
      List.flatMap_eq_nil_iff.mpr fun _ _ => rfl
    rw [hnone]
    exact List.Perm.nil
  | cons command rest ih =>
    obtain ⟨party, hmem, hfor⟩ := h command List.mem_cons_self
    let own := (s.step command).events
    let t := (s.step command).session
    have hown : own = parties.flatMap fun other => if command.isFor other then own else [] :=
      (flatMap_party hnodup hmem hfor own).symm
    have hparts : (parties.flatMap fun other => s.eventsOf other (command :: rest)) =
        parties.flatMap fun other =>
          (if command.isFor other then own else []) ++ t.eventsOf other rest := by
      simp only [eventsOf_cons, own, t]
    rw [hparts, reported]
    refine List.Perm.trans ?_ (List.flatMap_append_perm parties _ _)
    rw [← hown]
    exact (ih fun c hc => h c (List.mem_cons_of_mem command hc)).append_left own

theorem nodup_among {names : List Text} (h : names.Nodup) : (Party.among names).Nodup := by
  refine List.nodup_cons.mpr ⟨?_, ?_⟩
  · intro hmem
    obtain ⟨name, -, hname⟩ := List.mem_map.mp hmem
    cases hname
  · exact h.map fun a b hab => Party.scan.inj hab

/-- **A profile counts for each party what it reports**, one after the other. -/
theorem profile_among {names : List Text} (hnames : names.Nodup) {s : Session}
    {commands : List Command}
    (h : ∀ command ∈ commands, ∃ party ∈ Party.among names, command.party? = some party) :
    (s.after commands).profiles.head? = s.profiles.head?.map (·.follow
      (s.eventsOf .highlighter commands ++
        names.flatMap fun name => s.eventsOf (.scan name) commands)) := by
  have hsorted : (s.reported commands).Perm (s.eventsOf .highlighter commands ++
      names.flatMap fun name => s.eventsOf (.scan name) commands) := by
    refine (reported_perm (nodup_among hnames) h).trans (List.Perm.of_eq ?_)
    rw [Party.among, List.flatMap_cons, List.flatMap_map]
  rw [profile_after fun command hmem => Command.party?_ne_none (h command hmem)]
  exact congrArg (fun follow => s.profiles.head?.map follow)
    (funext fun profile => profile.follow_perm hsorted)

end Session

end ChipHighlight
