import ChipHighlight.Checkpoint
import ChipHighlight.Proofs.Reading.Lookahead

/-!
# What a reading does to the stack

A reading changes the stack one action at a time.  In a literal an opening quote pushes
one more, the closing quote takes the innermost off and ends the reading, and any other
character sets the flag of the innermost.  Outside, only a quote does anything.

`readActions` lists these actions as a host would perform them, and none of them fails
(`performAll_readActions`): whatever is taken off or flagged is there.
-/

namespace ChipHighlight

/-- Performs actions one after the other, up to the first that fails. -/
def Checkpoint.performAll (c : Checkpoint) : List Checkpoint.Action → Except Checkpoint.Fault Checkpoint
  | [] => .ok c
  | action :: rest =>
    match c.perform action with
    | .ok (_, next) => next.performAll rest
    | .error fault => .error fault

/-- What a reading inside a literal does to the stack that the literal is on top of. -/
def Literal.actions (a : Literal) : Text → List Checkpoint.Action
  | [] => []
  | c :: t =>
    if a.closesAt c then [.pop]
    else if a.opensAt c then .push a.fresh :: a.fresh.actions t
    else .setEscaped (a.pass c).escaped :: (a.pass c).actions t

def readActions (rules : Rules) : Stack → Text → List Checkpoint.Action
  | _, [] => []
  | a :: _, c :: t => a.actions (c :: t)
  | [], c :: t =>
    if isQuote c then
      .push (.quotedBy c rules.literalStyle) :: (Literal.quotedBy c rules.literalStyle).actions t
    else []

theorem Literal.performAll_actions (a : Literal) (outer saved : Stack) (t : Text) :
    Checkpoint.performAll ⟨a :: outer, saved⟩ (a.actions t) = .ok ⟨(a.read outer t).stack, saved⟩ := by
  induction t generalizing a outer with
  | nil => rfl
  | cons c t ih =>
    rw [actions, read_cons]
    split
    · rfl
    · split
      · exact ih a.fresh (a :: outer)
      · exact ih (a.pass c) outer

/-- **Whatever is taken off or flagged is there.** -/
theorem performAll_readActions (rules : Rules) (stack saved : Stack) (t : Text) :
    Checkpoint.performAll ⟨stack, saved⟩ (readActions rules stack t) =
      .ok ⟨(readNext rules stack t).stack, saved⟩ := by
  cases t with
  | nil =>
    rw [readNext_nil]
    cases stack <;> rfl
  | cons c t =>
    cases stack with
    | cons a outer => exact a.performAll_actions outer saved (c :: t)
    | nil =>
      rw [readActions, readNext_base]
      by_cases hquote : isQuote c = true
      · rw [if_pos hquote, readLexeme_of_isQuote hquote]
        exact Literal.performAll_actions _ [] saved t
      · rw [if_neg hquote, readLexeme_of_not_isQuote hquote]
        rfl

end ChipHighlight
