import ChipHighlight.Proofs.Line.Gaps
import ChipHighlight.Proofs.Profile.Tally
import ChipHighlight.Proofs.Session.Effects

/-!
# Gaps that are handed out

Whether a document is read with its gaps or without them does not matter to the lines and
characters that a profile counts, but it does to the tokens: every token that is handed out
counts, and a gap that is handed out is one of them.  So the profile tells the two readings
apart as soon as there is a gap (`profile_with_gaps`).
-/

namespace ChipHighlight

namespace Session

theorem step_run_document (s : Session) (mode : Mode) (keepGaps : Bool) (source : Text) :
    let tokens := (mode.transcribe s.config.rules keepGaps 1 [] (linesOf source)).tokens
    let outcome := s.step (.run (.document mode keepGaps source))
    outcome.reply = .ok (.tokens tokens) ∧
      outcome.session.profiles = s.profiles.modifyHead (Profile.reading (linesOf source) tokens) := by
  intro tokens outcome
  have houtcome : outcome = s.run (.document mode keepGaps source) (.own []) :=
    step_run (.own rfl)
  rw [houtcome]
  refine ⟨rfl, ?_⟩
  have hfollow : ∀ profile : Profile,
      profile.follow (mode.transcribe s.config.rules keepGaps 1 [] (linesOf source)).events =
        profile.reading (linesOf source) tokens :=
    fun profile => profile.follow_endings 1 (Mode.length_rows ..)
  show (s.note _).profiles = _
  rw [profiles_note]
  exact congrArg (s.profiles.modifyHead ·) (funext hfollow)

/-- **Gaps that are handed out are counted as tokens.**  With or without its gaps a document
adds the same lines and characters, but the profiles agree only if there is none, or the
document has no gap. -/
theorem profile_with_gaps (s : Session) (mode : Mode) (source : Text) :
    let run keepGaps := s.step (.run (.document mode keepGaps source))
    ∃ all kept,
      (run true).reply = .ok (.tokens all) ∧ (run false).reply = .ok (.tokens kept) ∧
      kept = (all.filter fun token => !token.isGap) ∧
      (run true).session.profiles = s.profiles.modifyHead (Profile.reading (linesOf source) all) ∧
      (run false).session.profiles = s.profiles.modifyHead (Profile.reading (linesOf source) kept) ∧
      ((run true).session.profiles = (run false).session.profiles ↔
        s.profiles = [] ∨ ∀ token ∈ all, token.isGap = false) := by
  intro run
  obtain ⟨hall, hprofiles⟩ := s.step_run_document mode true source
  obtain ⟨hkept, hprofiles'⟩ := s.step_run_document mode false source
  obtain ⟨hfilter, -, -⟩ := mode.transcribe_without_gaps s.config.rules 1 [] (linesOf source)
  refine ⟨_, _, hall, hkept, hfilter, hprofiles, hprofiles', ?_⟩
  rw [show (run true).session.profiles = _ from hprofiles,
    show (run false).session.profiles = _ from hprofiles', hfilter]
  cases s.profiles with
  | nil => simp
  | cons profile outer =>
    rw [List.modifyHead_cons, List.modifyHead_cons, List.cons.injEq, Profile.reading_inj]
    simp only [and_true, reduceCtorEq, false_or]
    rw [eq_comm, List.length_filter_eq_length_iff]
    simp only [Bool.not_eq_true']

/-- A letter between two gaps is one token among three. -/
theorem gaps_counted_around_letter :
    let s := ({} : Session).after [.enterProfile]
    let run keepGaps := s.step (.run (.document .blip keepGaps "  a  ".toList))
    (run true).session.profiles = [⟨1, 3, 5⟩] ∧ (run false).session.profiles = [⟨1, 1, 5⟩] := by
  decide +kernel

end Session

end ChipHighlight
