import ChipHighlight.Proofs.Profile.Tally
import ChipHighlight.Proofs.Session.Effects

/-!
# Scopes

Configurations and profiles come in scopes, and both kinds keep a pile: what is active on
top, and below it what was active when each of the open scopes was entered.  Entering puts
something on the pile, leaving takes it off, and all that happens in between works on the
top (`Piles`).  So commands that leave just the scopes that they entered (`Balanced`) change
no more than the top, and how is told by those of them that stand in no inner scope:

    enter  a  (enter  b  c  leave)  d  leave        innermost: a, d

Of a profile these are the steps that count in it, and it tells their sum when it is left
(`exitProfile_afterAll`).
-/

namespace ChipHighlight

/-- The commands among those that a host may have stated wrongly. -/
def Command.stated (attempts : List (Except CommandFault Command)) : List Command :=
  attempts.filterMap Except.toOption

inductive Scope
  | config
  | profile

namespace Scope

/-- Whether a command enters a scope.  Settings that make no configuration enter none. -/
def enters : Scope → Command → Bool
  | config, .enterConfig given => (Config.ofSetting given).isOk
  | profile, .enterProfile => true
  | _, _ => false

def leaves : Scope → Command → Bool
  | config, .exitConfig => true
  | profile, .exitProfile => true
  | _, _ => false

/-- The number of open scopes behind some commands, of which `depth` are open in front of
them.  There is none if the commands leave more than are open. -/
def depthAfter (scope : Scope) : Nat → List Command → Option Nat
  | depth, [] => some depth
  | depth, command :: rest =>
    if scope.enters command then scope.depthAfter (depth + 1) rest
    else if scope.leaves command then
      if depth = 0 then none else scope.depthAfter (depth - 1) rest
    else scope.depthAfter depth rest

/-- **Commands that leave just the scopes that they entered.** -/
def Balanced (scope : Scope) (commands : List Command) : Prop :=
  scope.depthAfter 0 commands = some 0

instance (scope : Scope) (commands : List Command) : Decidable (scope.Balanced commands) :=
  inferInstanceAs (Decidable (_ = _))

/-- The commands that stand in no inner scope, each with the session that it finds, where
`depth` inner scopes are open in front of the first. -/
def innermost (scope : Scope) : Nat → Session → List Command → List (Session × Command)
  | _, _, [] => []
  | depth, s, command :: rest =>
    let next := (s.step command).session
    if scope.enters command then scope.innermost (depth + 1) next rest
    else if scope.leaves command then scope.innermost (depth - 1) next rest
    else if depth = 0 then (s, command) :: scope.innermost depth next rest
    else scope.innermost depth next rest

/-! ### Piles -/

section

variable {α : Type} {scope : Scope} {pile : Session → List α}
  {work : Session → Command → α → α}

/-- **What scopes of one kind pile up**, the active one first. -/
structure Piles (scope : Scope) (pile : Session → List α)
    (work : Session → Command → α → α) : Prop where
  enter : ∀ s command, scope.enters command = true →
    ∃ a, pile (s.step command).session = a :: pile s
  leave : ∀ s command, scope.leaves command = true → 1 < (pile s).length →
    pile (s.step command).session = (pile s).tail
  within : ∀ s command, scope.enters command = false → scope.leaves command = false →
    pile (s.step command).session = (pile s).modifyHead (work s command)

/-- **Commands change the top of the pile only**, apart from what they put on it. -/
theorem Piles.drop_after (h : scope.Piles pile work) {depth left : Nat} {commands : List Command}
    {s : Session} {a : α} {below : List α} (hdepth : scope.depthAfter depth commands = some left)
    (hs : (pile s).drop depth = a :: below) :
    (pile (s.after commands)).drop left =
      (scope.innermost depth s commands).foldl (fun a found => work found.1 found.2 a) a :: below := by
  induction commands generalizing s depth a with
  | nil =>
    cases hdepth
    exact hs
  | cons command rest ih =>
    rw [depthAfter] at hdepth
    rw [Session.after_cons, innermost]
    cases henters : scope.enters command with
    | true =>
      obtain ⟨b, hb⟩ := h.enter s command henters
      rw [if_pos henters] at hdepth
      refine ih hdepth ?_
      rw [hb, List.drop_succ_cons, hs]
    | false =>
      rw [if_neg (by rw [henters]; exact Bool.false_ne_true)] at hdepth
      cases hleaves : scope.leaves command with
      | true =>
        rw [if_pos hleaves] at hdepth
        cases depth with
        | zero => cases hdepth
        | succ depth =>
          have hlength : 1 < (pile s).length := by
            have := congrArg List.length hs
            rw [List.length_drop, List.length_cons] at this
            omega
          refine ih hdepth ?_
          rw [h.leave s command hleaves hlength, List.drop_tail]
          exact hs
      | false =>
        rw [if_neg (by rw [hleaves]; exact Bool.false_ne_true)] at hdepth
        have hwithin := h.within s command henters hleaves
        cases depth with
        | zero =>
          refine ih hdepth ?_
          rw [List.drop_zero] at hs ⊢
          rw [hwithin, hs]
          rfl
        | succ depth =>
          -- an inner scope is on top
          refine ih hdepth ?_
          rw [hwithin, ← hs]
          cases pile s <;> rfl

/-- **Balanced commands** leave the pile as it was, but for the top. -/
theorem Piles.after (h : scope.Piles pile work) {commands : List Command}
    (hbalanced : scope.Balanced commands) {s : Session} {a : α} {below : List α}
    (hs : pile s = a :: below) :
    pile (s.after commands) =
      (scope.innermost 0 s commands).foldl (fun a found => work found.1 found.2 a) a :: below :=
  h.drop_after hbalanced hs

end

end Scope

namespace Session

/-! ### Commands that may be stated wrongly -/

/-- The session after a run of commands that a host may have stated wrongly. -/
def afterAll (s : Session) (attempts : List (Except CommandFault Command)) : Session :=
  attempts.foldl (fun s command => (s.attempt command).session) s

/-- What is stated wrongly changes nothing. -/
theorem afterAll_eq_after (s : Session) (attempts : List (Except CommandFault Command)) :
    s.afterAll attempts = s.after (Command.stated attempts) := by
  induction attempts generalizing s with
  | nil => rfl
  | cons attempt rest ih =>
    cases attempt with
    | error fault => exact ih s
    | ok command => exact ih (s.step command).session

/-! ### The two piles -/

def configured : Command → Config → Config
  | .setConfig given, active => (Config.ofSetting given).toOption.getD active
  | .resetConfig, _ => .default
  | _, active => active

def tallies (s : Session) : Command → List Tally
  | .record chars tokens => [⟨chars, tokens⟩]
  | command => Tally.ofEvents (s.step command).events

variable {s : Session}

theorem isOk_of_done {given : Setting} (h : (s.step (.enterConfig given)).reply = .ok .done) :
    Scope.config.enters (.enterConfig given) = true := by
  rw [step, configure] at h
  split at h
  · rename_i hconfig
    rw [Scope.enters, hconfig]
    rfl
  · cases h

theorem piles_config :
    Scope.config.Piles (fun s => s.config :: s.saved) fun _ command => configured command where
  enter s command h := by
    cases command with
    | enterConfig given =>
      rw [step, configure]
      split
      · exact ⟨_, rfl⟩
      · rename_i hfault
        rw [Scope.enters, hfault] at h
        cases h
    | _ => cases h
  leave s command h hlength := by
    cases command with
    | exitConfig =>
      rw [step, exitConfig]
      split
      · rename_i hsaved
        rw [hsaved] at hlength
        exact absurd hlength (Nat.lt_irrefl 1)
      · rename_i hsaved
        rw [hsaved]
        rfl
    | _ => cases h
  within s command henters hleaves := by
    cases hreach : command.reachesConfigs with
    | true =>
      cases command with
      | setConfig given =>
        show _ = configured (.setConfig given) s.config :: s.saved
        rw [step, configure, configured]
        split
        · rename_i hconfig
          rw [hconfig]
          rfl
        · rename_i hfault
          rw [hfault]
          rfl
      | enterConfig given =>
        rw [step, configure]
        split
        · rename_i hconfig
          rw [Scope.enters, hconfig] at henters
          cases henters
        · rfl
      | exitConfig => cases hleaves
      | resetConfig => rfl
      | _ => cases hreach
    | false =>
      obtain ⟨hconfig, hsaved⟩ := s.configs_step hreach
      rw [hconfig, hsaved]
      cases command with
      | setConfig _ | resetConfig => cases hreach
      | _ => rfl

/-- **Profiles pile up**, and the active one adds up what is counted. -/
theorem piles_profile :
    Scope.profile.Piles profiles fun s command => (Profile.plus · (s.tallies command)) where
  enter s command h := by
    cases command with
    | enterProfile => exact ⟨_, rfl⟩
    | _ => cases h
  leave s command h _ := by
    cases command with
    | exitProfile =>
      rw [step, exitProfile]
      split
      · rename_i hprofiles
        rw [hprofiles]
        exact hprofiles
      · rename_i hprofiles
        rw [hprofiles]
        rfl
    | _ => cases h
  within s command henters hleaves := by
    cases command with
    | enterProfile => cases henters
    | exitProfile => cases hleaves
    | record chars tokens =>
      rw [step, record]
      split
      · rename_i hprofiles
        rw [hprofiles]
        exact hprofiles
      · rename_i hprofiles
        rw [hprofiles, tallies, List.modifyHead_cons, Profile.plus_singleton]
        rfl
    | _ =>
      refine (s.profiles_step rfl).trans ?_
      simp only [Profile.follow_eq_plus]
      rfl

theorem step_exitProfile {profile : Profile} {outer : List Profile}
    (h : s.profiles = profile :: outer) :
    s.step .exitProfile = answer { s with profiles := outer } (.profile (some profile)) := by
  rw [step, exitProfile, h]

def innermostTallies (s : Session) (commands : List Command) : List Tally :=
  (Scope.profile.innermost 0 s commands).flatMap fun found => found.1.tallies found.2

/-- **A profile that is left** tells what was counted while it was the innermost one, and
the ones below are as they were. -/
theorem exitProfile_afterAll (s : Session) {body : List (Except CommandFault Command)}
    (hbalanced : Scope.profile.Balanced (Command.stated body)) :
    let entered := (s.step .enterProfile).session
    let inside := entered.afterAll body
    inside.step .exitProfile =
      answer { inside with profiles := s.profiles }
        (.profile (some (Profile.plus {} (entered.innermostTallies (Command.stated body))))) := by
  intro entered inside
  have hsum : ∀ (profile : Profile) (found : List (Session × Command)),
      found.foldl (fun profile found => profile.plus (found.1.tallies found.2)) profile =
        profile.plus (found.flatMap fun found => found.1.tallies found.2) := by
    intro profile found
    induction found generalizing profile with
    | nil => exact profile.plus_nil.symm
    | cons first rest ih => rw [List.foldl_cons, ih, List.flatMap_cons, Profile.plus_append]
  have hpile := piles_profile.after (s := entered) hbalanced rfl
  rw [← afterAll_eq_after, hsum] at hpile
  exact step_exitProfile hpile

theorem step_exitConfig {config : Config} {saved : List Config} (h : s.saved = config :: saved) :
    s.step .exitConfig = answer { s with config := config, saved := saved } .done := by
  rw [step, exitConfig, h]

end Session

end ChipHighlight
