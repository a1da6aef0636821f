import ChipHighlight.Log
import ChipHighlight.Proofs.Session.Standing

/-!
# Pulling a scan in a session

A host opens a scan for a job and asks it for tokens, any number at a time, while it does
other things that leave the scan and the profile alone.  Asking is additive, so whatever it
has got by then is what the moments up to one token come to, the sum of all that it asked
for (`Pulling.pulled`).  Run at once, the job comes to all of its moments (`came_run`).
-/

namespace ChipHighlight.Session

variable {s t : Session} {name : Text}

/-! ### What some moments come to -/

/-- **What the given moments come to** between two sessions: the tokens that are handed out,
the events that are reported, the stack in the cell, and what the profile counts. -/
structure Came (s : Session) (carrier : Carrier) (moments : List Moment) (tokens : List Token)
    (events : List Event) (t : Session) : Prop where
  tokens_eq : tokens = Moment.tokens moments
  events_eq : events = Moment.events moments
  cell_eq : ∀ cell, carrier = .shared cell → t.cell cell = Moment.stackAfter (s.cell cell) moments
  profile_eq : t.profiles.head? = s.profiles.head?.map (·.follow (Moment.events moments))

theorem Came.agree {carrier : Carrier} {moments : List Moment} {tokens others : List Token}
    {events happened : List Event} {u : Session} (h : s.Came carrier moments tokens events t)
    (k : s.Came carrier moments others happened u) :
    tokens = others ∧ events = happened ∧ t.profiles.head? = u.profiles.head? ∧
      ∀ cell, carrier = .shared cell → t.cell cell = u.cell cell := by
  refine ⟨h.tokens_eq.trans k.tokens_eq.symm, h.events_eq.trans k.events_eq.symm,
    h.profile_eq.trans k.profile_eq.symm, ?_⟩
  intro cell hcell
  rw [h.cell_eq cell hcell, k.cell_eq cell hcell]

/-- **A job that is run at once** comes to all of its moments. -/
theorem came_run (hs : s.Sound) {job : Job} {carrier : Carrier} (h : s.Provides job carrier) :
    ∃ tokens, (s.step (.run job)).reply = .ok (.tokens tokens) ∧
      s.Came carrier (job.moments s.config.rules (s.carried carrier)) tokens
        (s.step (.run job)).events (s.step (.run job)).session := by
  have hstep : s.step (.run job) = s.run job carrier :=
    withCarrier_eq h fun carrier => s.run job carrier
  rw [hstep, run, Job.transcribe_eq]
  refine ⟨_, rfl, rfl, rfl, ?_, ?_⟩
  · rintro cell rfl
    show (note _ _).cell cell = _
    rw [note_eq]
    exact (cell_leave s _ (h.within hs) cell).trans (if_pos rfl)
  · exact (head?_profiles_note _ _).trans (by rw [profiles_leave])

/-! ### Pulling -/

/-- What a host has got from a scan: how many tokens it asked for altogether, the tokens and
events that it was given, and whether it met the end. -/
structure Received where
  asked : Nat := 0
  tokens : List Token := []
  events : List Event := []
  finished : Bool := false

def Received.hear (received : Received) (n : Nat) (outcome : Outcome) : Received :=
  match outcome.reply with
  | .ok (.batch tokens finished) =>
    ⟨received.asked + n, received.tokens ++ tokens, received.events ++ outcome.events,
      received.finished || finished⟩
  | _ => received

theorem Received.hear_batch {outcome : Outcome} {tokens : List Token} {finished : Bool}
    (h : outcome.reply = .ok (.batch tokens finished)) (received : Received) (n : Nat) :
    received.hear n outcome =
      ⟨received.asked + n, received.tokens ++ tokens, received.events ++ outcome.events,
        received.finished || finished⟩ := by
  rw [hear, h]

/-- **A host that pulls a scan**, what it has got, and the session by then.  What else it
does leaves the rules, the scan with its stack, and the profile as they are. -/
inductive Pulling (name : Text) (s : Session) : Received → Session → Prop
  | start : Pulling name s {} s
  | pull {received : Received} {t : Session} (n : Nat) :
      Pulling name s received t →
      Pulling name s (received.hear n (t.step (.pull name n))) (t.step (.pull name n)).session
  | other {received : Received} {t : Session} (command : Command)
      (hspares : t.Spares name (t.step command).session)
      (hprofile : (t.step command).session.profiles.head? = t.profiles.head?) :
      Pulling name s received t → Pulling name s received (t.step command).session

/-- What holds of a host that pulls a scan which stood in front of the given moments. -/
structure Pulled (s : Session) (name : Text) (home : Option Nat) (stack : Stack)
    (moments : List Moment) (received : Received) (t : Session) : Prop where
  sound : t.Sound
  stands : t.Stands name home (Moment.stackAfter stack (Moment.upTo received.asked moments))
    (Moment.beyond received.asked moments)
  tokens_eq : received.tokens = Moment.tokens (Moment.upTo received.asked moments)
  events_eq : received.events = Moment.events (Moment.upTo received.asked moments)
  finished_eq : received.finished = decide ((Moment.tokens moments).length < received.asked)
  profile_eq : t.profiles.head? =
    s.profiles.head?.map (·.follow (Moment.events (Moment.upTo received.asked moments)))

section

variable {home : Option Nat} {stack : Stack} {moments : List Moment} {received : Received}

/-- **One more batch** is as if it had been asked for together with the others. -/
theorem Pulled.pull (h : s.Pulled name home stack moments received t) (n : Nat) :
    s.Pulled name home stack moments (received.hear n (t.step (.pull name n)))
      (t.step (.pull name n)).session := by
  obtain ⟨hreply, hevents, hstands, hprofile⟩ := h.stands.pull h.sound n
  rw [Received.hear_batch hreply]
  refine ⟨h.sound.step _, ?_, ?_, ?_, ?_, ?_⟩
  · dsimp only
    rw [Moment.upTo_add, Moment.stackAfter_append, Moment.beyond_add]
    exact hstands
  · dsimp only
    rw [Moment.upTo_add, Moment.tokens_append, h.tokens_eq]
  · dsimp only
    rw [Moment.upTo_add, Moment.events_append, h.events_eq, hevents]
  · dsimp only
    rw [h.finished_eq, Moment.tokens_beyond, List.length_drop, ← Bool.decide_or]
    refine decide_eq_decide.mpr ?_
    omega
  · dsimp only
    rw [Moment.upTo_add, Moment.events_append, hprofile, h.profile_eq, map_follow_append]

theorem Pulling.pulled (h : Pulling name s received t) (hs : s.Sound)
    (hstands : s.Stands name home stack moments) :
    s.Pulled name home stack moments received t := by
  induction h with
  | start =>
    refine ⟨hs, ?_, ?_, ?_, rfl, ?_⟩
    · rw [Moment.upTo_zero, Moment.beyond_zero]
      exact hstands
    · rw [Moment.upTo_zero]
      rfl
    · rw [Moment.upTo_zero]
      rfl
    · rw [Moment.upTo_zero]
      exact (map_follow_nil _).symm
  | pull n _ ih => exact ih.pull n
  | other command hspares hprofile _ ih =>
    exact ⟨ih.sound.step command, ih.stands.of_spares hspares, ih.tokens_eq, ih.events_eq,
      ih.finished_eq, hprofile.trans ih.profile_eq⟩

theorem Pulled.came {u : Session} {carrier : Carrier}
    (h : u.Pulled name carrier.cell? (s.carried carrier) moments received t)
    (hprofiles : u.profiles = s.profiles) :
    s.Came carrier (Moment.upTo received.asked moments) received.tokens received.events t := by
  refine ⟨h.tokens_eq, h.events_eq, ?_, ?_⟩
  · rintro cell rfl
    exact h.stands.cell_eq rfl
  · rw [← hprofiles]
    exact h.profile_eq

/-- **Where a host is that has not met the end**: right behind the last token that it got. -/
theorem Pulled.last_token (h : s.Pulled name home stack moments received t)
    (hfinished : received.finished = false) :
    (received.tokens = [] ∧ Moment.upTo received.asked moments = []) ∨
      ∃ token following, received.tokens.getLast? = some token ∧
        (Moment.upTo received.asked moments).getLast? = some (.token token following) := by
  rw [h.finished_eq, decide_eq_false_iff_not, Nat.not_lt] at hfinished
  rw [h.tokens_eq]
  cases hasked : received.asked with
  | zero =>
    rw [Moment.upTo_zero]
    exact Or.inl ⟨rfl, rfl⟩
  | succ n =>
    rw [hasked] at hfinished
    obtain ⟨token, following, hlast, htoken⟩ := Moment.getLast?_upTo (Nat.succ_pos n) hfinished
    exact Or.inr ⟨token, following, htoken, hlast⟩

end

/-- **Reading step by step coincides with reading at once.**  What a host has got from a
scan that it pulls is the first part of what running the job at once gives: tokens, events
with their log, the profile's totals, and in the named stack what was open behind the last
token.  It meets the end exactly when it asks for a token that is not there, and has all of
it then.  A line's end comes when a token behind all tokens of the line is asked for. -/
theorem pulling_agrees_with_run (before : List Command) (name : Text) (job : Job)
    {received : Received} {t : Session} :
    let s := ({} : Session).after before
    let opened := s.step (.openScan name job)
    let eager := s.step (.run job)
    opened.reply = .ok .done → Pulling name opened.session received t →
    ∃ carrier all, s.Provides job carrier ∧ eager.reply = .ok (.tokens all) ∧
      let course := job.moments s.config.rules (s.carried carrier)
      let taken := Moment.upTo received.asked course
      let rows := job.rows s.config.rules (s.carried carrier)
      s.Came carrier course all eager.events eager.session ∧
      s.Came carrier taken received.tokens received.events t ∧
      received.tokens = all.take received.asked ∧ received.events <+: eager.events ∧
      Log.ofEvents received.events <+: Log.ofEvents eager.events ∧
      (received.finished = true ↔ all.length < received.asked) ∧
      (received.finished = true →
        received.tokens = all ∧ received.events = eager.events ∧
          t.profiles.head? = eager.session.profiles.head? ∧
          ∀ cell, carrier = .shared cell → t.cell cell = eager.session.cell cell) ∧
      (received.finished = false →
        (received.tokens = [] ∧ taken = [] ∧
          ∀ cell, carrier = .shared cell → t.cell cell = s.cell cell) ∨
        ∃ token following, received.tokens.getLast? = some token ∧
          taken.getLast? = some (.token token following) ∧
          ∀ cell, carrier = .shared cell → t.cell cell = following) ∧
      (∀ n, (t.step (.pull name n)).reply =
        .ok (.batch ((all.drop received.asked).take n)
          (decide ((all.drop received.asked).length < n)))) ∧
      eager.events = Row.endings job.number job.lines rows ∧
      ∀ i < job.lines.length,
        (i < received.events.length ↔
          ((rows.take (i + 1)).flatMap Row.tokens).length < received.asked) := by
  intro s opened eager hopen h
  have hs : s.Sound := sound_after before
  obtain ⟨carrier, hprovides⟩ := exists_provides hopen
  obtain ⟨all, hall, heager⟩ := came_run hs hprovides
  let course := job.moments s.config.rules (s.carried carrier)
  let taken := Moment.upTo received.asked course
  have hpulled := h.pulled (hs.step _) (stands_openScan hprovides)
  have hopened : opened.session.profiles = s.profiles :=
    congrArg (fun o => o.session.profiles) (step_openScan hprovides)
  have hlazy : s.Came carrier taken received.tokens received.events t := hpulled.came hopened
  have hprefix : received.events <+: eager.events := by
    refine ⟨Moment.events (Moment.beyond received.asked course), ?_⟩
    rw [hlazy.events_eq, heager.events_eq, ← Moment.events_append, Moment.upTo_append_beyond]
  have hfinished : received.finished = true ↔ all.length < received.asked := by
    rw [hpulled.finished_eq, decide_eq_true_iff, heager.tokens_eq]
  refine ⟨carrier, all, hprovides, hall, heager, hlazy, ?_, hprefix, hprefix.filterMap _, hfinished,
    ?_, ?_, ?_, ?_, ?_⟩
  · rw [hlazy.tokens_eq, Moment.tokens_upTo, heager.tokens_eq]
  · intro hdone
    have hlt := hfinished.mp hdone
    rw [heager.tokens_eq] at hlt
    have htaken : taken = course := Moment.upTo_eq_self hlt
    rw [htaken] at hlazy
    exact hlazy.agree heager
  · intro hdone
    rcases hpulled.last_token hdone with ⟨hnone, htaken⟩ | ⟨token, following, htoken, htaken⟩
    · refine Or.inl ⟨hnone, htaken, ?_⟩
      intro cell hcell
      rw [hlazy.cell_eq cell hcell, show taken = [] from htaken]
      rfl
    · refine Or.inr ⟨token, following, htoken, htaken, ?_⟩
      intro cell hcell
      rw [hlazy.cell_eq cell hcell, Moment.stackAfter_of_getLast? _ htaken]
      rfl
  · intro n
    rw [(hpulled.stands.pull hpulled.sound n).1, Moment.tokens_upTo, Moment.tokens_beyond,
      heager.tokens_eq]
  · rw [heager.events_eq, Job.moments_eq]
    exact (Scan.rows_eq_momentsOf ..).2.1.symm
  · intro i hi
    have hcourse : course = _ := Job.moments_eq ..
    rw [hlazy.events_eq, show taken = Moment.upTo received.asked course from rfl, hcourse]
    exact Scan.lt_length_events_upTo_iff _ _ _ _ _ hi _

/-- A line ends inside of a literal, and its stack is looked at in between. -/
theorem pulled_around_a_look :
    let before : List Command := [.enterProfile, .newStack "s".toList []]
    let job : Job := .line .blip false 7 (some "s".toList) "c4 'd".toList
    let s := ({} : Session).after before
    let opened := s.step (.openScan [] job)
    let first := opened.session.step (.pull [] 1)
    let looked := first.session.step (.showStack "s".toList)
    let second := looked.session.step (.pull [] 2)
    let received := (({} : Received).hear 1 first).hear 2 second
    opened.reply = .ok .done ∧ Pulling [] opened.session received second.session ∧
      received.finished = true ∧
      ∃ all, (s.step (.run job)).reply = .ok (.tokens all) ∧ received.tokens = all ∧
        received.events = [.lineEnd 7 5 2 1] := by
  intro before job s opened first looked second received
  have hsame : looked.session = first.session :=
    withCell_session (P := (· = first.session)) rfl fun _ _ => rfl
  have hopen : opened.reply = .ok .done := rfl
  have h : Pulling [] opened.session received second.session := by
    refine .pull 2 (.other (.showStack "s".toList) ?_ ?_ (.pull 1 .start))
    · rw [show (first.session.step (.showStack "s".toList)).session = first.session from hsame]
      exact ⟨rfl, rfl, fun _ _ => rfl⟩
    · exact congrArg (fun t => t.profiles.head?) hsame
  have hfinished : received.finished = true := by decide +kernel
  obtain ⟨carrier, all, -, hall, -, -, -, -, -, -, hdone, -⟩ :=
    pulling_agrees_with_run before [] job hopen h
  exact ⟨hopen, h, hfinished, all, hall, (hdone hfinished).1, by decide +kernel⟩

end ChipHighlight.Session
