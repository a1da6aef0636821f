import ChipHighlight.Proofs.Highlighter.InOrder
import ChipHighlight.Proofs.Session.Editing
import ChipHighlight.Proofs.Session.Runs

/-!
# Highlighting in a session

Once a highlighter for a proper mode is made, no update fails and what is kept stays well
formed, whatever the host does: it may change the configuration at any time, hand over
any documents, and say anything about where they differ from the ones before.
-/

namespace ChipHighlight.Session

/-- What holds of a session that highlights with a proper mode. -/
def Highlights (s : Session) : Prop := s.highlighter.WellFormed ∧ s.startFault = none

theorem Highlights.step {s : Session} (h : s.Highlights) {command : Command}
    (hother : ∀ mode fault, command ≠ .newHighlighter mode fault) :
    (s.step command).session.Highlights := by
  cases hreach : command.reachesHighlighter with
  | false =>
    obtain ⟨hh, hs⟩ := sameHighlighter_step (s := s) hreach
    unfold Highlights
    rwa [hh, hs]
  | true =>
    cases command with
    | newHighlighter mode fault => exact absurd rfl (hother mode fault)
    | update lines first =>
      obtain ⟨hh, hs⟩ := session_update s lines first h.2
      unfold Highlights
      rw [hh, hs]
      exact ⟨h.1.update s.config lines first, rfl⟩
    | _ => cases hreach

theorem reply_update {s : Session} (h : s.startFault = none) (lines : List Text) (first : Int) :
    (s.step (.update lines first)).reply =
      .ok (.count (s.highlighter.update s.config lines first).scanned) := by
  rw [step_update h]
  rfl

/-- **No edit puts a highlighter out of order.**  In a session in which a highlighter was
made and then anything happened but that another was made, there is a row for each line,
the tokens of all rows are in order, and the next update is taken over whatever it says. -/
theorem highlighter_stays_wellFormed (s : Session) (mode : Mode) (commands : List Command)
    (hone : ∀ command ∈ commands, ∀ other fault, command ≠ .newHighlighter other fault) :
    let t := (s.step (.newHighlighter mode none)).session.after commands
    t.highlighter.WellFormed ∧ t.highlighter.allTokens.Pairwise Token.Before ∧
      ∀ (lines : List Text) (first : Int),
        (∃ n ≤ lines.length, (t.step (.update lines first)).reply = .ok (.count n)) ∧
          (t.step (.update lines first)).session.highlighter.lines = lines := by
  intro t
  have h : t.Highlights :=
    after_induction ⟨Highlighter.wellFormed_new mode, rfl⟩
      fun u command hmem hu => hu.step (hone command hmem)
  refine ⟨h.1, h.1.numbered.pairwise_before, ?_⟩
  intro lines first
  refine ⟨⟨_, Highlighter.scanned_update_le _ _ lines first, reply_update h.2 lines first⟩, ?_⟩
  rw [(session_update t lines first h.2).1, Highlighter.lines_update]

/-- A first line is put in front of two others, and the edit is said to start behind it. -/
theorem wellFormed_after_false_start :
    let document := ["a".toList, "'".toList, "b".toList]
    let commands : List Command := [.update (document.drop 1) 0, .resetConfig, .update document 1]
    (∀ command ∈ commands, ∀ other fault, command ≠ .newHighlighter other fault) ∧
      let t := (({} : Session).step (.newHighlighter .blip none)).session.after commands
      t.highlighter.WellFormed ∧
        t.highlighter.allTokens.map (fun token => (token.line, token.start)) =
          [(1, 0), (2, 0), (3, 0)] := by
  intro document commands
  have hone : ∀ command ∈ commands, ∀ other fault, command ≠ .newHighlighter other fault := by
    intro command hmem other fault heq
    simp [commands, heq] at hmem
  refine ⟨hone, ?_⟩
  intro t
  exact ⟨(highlighter_stays_wellFormed {} .blip commands hone).1, by decide +kernel⟩

end ChipHighlight.Session
