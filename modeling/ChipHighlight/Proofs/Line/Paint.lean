import ChipHighlight.Proofs.Line.Readings

/-!
# The styles of the characters

`Span.paint` gives each character of some spans its style.  A token covers the
characters from its start on and before its stop, and the tokens of the spans of a line
cover its character `i` in a style exactly when that is its style in the paint
(`exists_covers_iff`).  A gap has no style, so as to styled characters it does not matter
whether gaps are kept (`exists_covers_row_iff`).
-/

namespace ChipHighlight

/-- A token covers the characters of its line from its start on and before its stop. -/
def Token.Covers (token : Token) (i : Nat) : Prop :=
  token.start ≤ i ∧ i < token.stop

instance (token : Token) (i : Nat) : Decidable (token.Covers i) :=
  inferInstanceAs (Decidable (_ ∧ _))

namespace Span

def paint (spans : List Span) : List (Option Style) :=
  spans.flatMap fun span => List.replicate span.text.length span.style

@[simp] theorem paint_nil : paint [] = [] := rfl

theorem paint_cons (span : Span) (rest : List Span) :
    paint (span :: rest) = List.replicate span.text.length span.style ++ paint rest := rfl

/-! ### The spans of a line -/

theorem paint_lineSpans_read {rules : Rules} {stack next : Stack} {taken rest : Text} {style : Option Style}
    (hne : taken ≠ [])
    (hread : readNext rules stack (taken ++ rest) = ⟨style, taken.length, next⟩) :
    paint (lineSpans rules stack (taken ++ rest)) =
      List.replicate taken.length style ++ paint (lineSpans rules next rest) := by
  rw [lineSpans_read hne hread, paint_cons]

theorem length_paint_lineSpans (rules : Rules) (stack : Stack) (t : Text) :
    (paint (lineSpans rules stack t)).length = t.length := by
  induction stack, t using readings_induction rules with
  | nil stack =>
    rw [lineSpans_nil]
    rfl
  | read stack next taken rest style hne hread ih =>
    rw [paint_lineSpans_read hne hread, List.length_append, List.length_replicate, ih,
      List.length_append]

/-! ### Tokens -/

theorem offset_le_start {number : Int} {offset : Nat} {spans : List Span} {token : Token}
    (h : token ∈ place number offset spans) : (offset : Int) ≤ token.start := by
  induction spans generalizing offset with
  | nil => exact absurd h List.not_mem_nil
  | cons span rest ih =>
    rw [place] at h
    split at h
    · exact ih h
    · rcases List.mem_cons.mp h with rfl | h
      · exact Int.le_refl _
      · have := ih h
        omega

/-- **The paint says which tokens cover what.** -/
theorem exists_covers_iff (number : Int) (offset i : Nat) (spans : List Span)
    (style : Option Style) :
    (∃ token ∈ place number offset spans, token.style = style ∧ token.Covers (offset + i)) ↔
      (paint spans)[i]? = some style := by
  induction spans generalizing offset i with
  | nil =>
    constructor
    · rintro ⟨token, htoken, -⟩
      exact absurd htoken List.not_mem_nil
    · nofun
  | cons span rest ih =>
    rw [place, paint_cons]
    by_cases hempty : span.text.isEmpty = true
    · have htext : span.text = [] := List.isEmpty_iff.mp hempty
      rw [if_pos hempty, htext, List.length_nil, List.replicate_zero, List.nil_append]
      exact ih offset i
    · rw [if_neg hempty]
      by_cases hi : i < span.text.length
      · -- the characters of the span itself
        rw [List.getElem?_append_left (by rwa [List.length_replicate]),
          List.getElem?_replicate_of_lt hi, Option.some_inj]
        constructor
        · rintro ⟨token, htoken, hstyle, hcovers⟩
          rcases List.mem_cons.mp htoken with rfl | htoken
          · exact hstyle
          · have hstart := offset_le_start htoken
            obtain ⟨hle, -⟩ := hcovers
            omega
        · intro hstyle
          refine ⟨span.token number offset, List.mem_cons_self, hstyle, ?_, ?_⟩
          · show (offset : Int) ≤ (offset + i : Nat)
            omega
          · show ((offset + i : Nat) : Int) < offset + span.text.length
            omega
      · -- the characters behind it
        obtain ⟨j, rfl⟩ : ∃ j, i = span.text.length + j := ⟨i - span.text.length, by omega⟩
        rw [List.getElem?_append_right (by rw [List.length_replicate]; omega),
          List.length_replicate, Nat.add_sub_cancel_left, ← ih (offset + span.text.length) j]
        have hplace : offset + (span.text.length + j) = offset + span.text.length + j := by omega
        rw [hplace]
        constructor
        · rintro ⟨token, htoken, hstyle, hcovers⟩
          rcases List.mem_cons.mp htoken with rfl | htoken
          · have hlt : ((offset + span.text.length + j : Nat) : Int) <
                offset + span.text.length := hcovers.2
            omega
          · exact ⟨token, htoken, hstyle, hcovers⟩
        · rintro ⟨token, htoken, hstyle, hcovers⟩
          exact ⟨token, List.mem_cons_of_mem _ htoken, hstyle, hcovers⟩

theorem exists_covers_row_iff (rules : Rules) (keepGaps : Bool) (number : Int) (stack : Stack)
    (line : Text) (i : Nat) (style : Style) :
    (∃ token ∈ (Mode.blip.row rules keepGaps number stack line).tokens,
      token.style = some style ∧ token.Covers i) ↔
      (paint (lineSpans rules stack line))[i]? = some (some style) := by
  rw [← exists_covers_iff number 0, Nat.zero_add]
  constructor
  · rintro ⟨token, htoken, h⟩
    exact ⟨token, (List.mem_filter.mp htoken).1, h⟩
  · rintro ⟨token, htoken, hstyle, hcovers⟩
    refine ⟨token, List.mem_filter.mpr ⟨htoken, ?_⟩, hstyle, hcovers⟩
    rw [keeps, Token.isGap, hstyle]
    cases keepGaps <;> rfl

end Span

end ChipHighlight
