import ChipHighlight.Proofs.Line.Rows

/-!
# The readings of a line

In the mode of the notation a line is read to its end without a refusal, and what is
already read does not matter.  So its spans are a list `lineSpans rules stack t` of the
rules, the stack and the text alone, and it is built from readings:

    lineSpans stack (taken ++ rest) = ⟨taken, style, next⟩ :: lineSpans next rest

whenever the reading at `taken ++ rest` takes `taken` (`lineSpans_read`).  Facts about
all lines are proved along the readings, by `readings_induction`.
-/

namespace ChipHighlight

def lineSpans (rules : Rules) (stack : Stack) (t : Text) : List Span :=
  Mode.blip.spans rules stack [] t

variable {rules : Rules}

@[simp] theorem lineSpans_nil (stack : Stack) : lineSpans rules stack [] = [] :=
  Mode.spans_nil _ _ _ _

theorem spans_blip_of_readNext {stack next : Stack} {taken rest before : Text}
    {style : Option Style} (hne : taken ≠ [])
    (hread : readNext rules stack (taken ++ rest) = ⟨style, taken.length, next⟩) :
    Mode.blip.spans rules stack before (taken ++ rest) =
      ⟨taken, style, next⟩ :: Mode.blip.spans rules next (taken.reverse ++ before) rest := by
  cases taken with
  | nil => exact absurd rfl hne
  | cons c t =>
    have h : Mode.blip.read rules stack before (c :: (t ++ rest)) = ⟨style, t.length + 1, next⟩ :=
      hread
    rw [List.cons_append, Mode.spans_read h, List.take_left, List.drop_left]

/-- **A text before its end has a next reading**, which takes some of it. -/
theorem exists_readNext (rules : Rules) (stack : Stack) {t : Text} (h : t ≠ []) :
    ∃ taken rest style next, t = taken ++ rest ∧ taken ≠ [] ∧
      readNext rules stack (taken ++ rest) = ⟨style, taken.length, next⟩ := by
  have hpos := length_readNext_pos rules stack h
  have hle := length_readNext_le rules stack t
  refine ⟨t.take (readNext rules stack t).length, t.drop (readNext rules stack t).length,
    (readNext rules stack t).style, (readNext rules stack t).stack,
    (List.take_append_drop _ _).symm, ?_, ?_⟩
  · intro hnil
    have hlen := congrArg List.length hnil
    rw [List.length_take_of_le hle, List.length_nil] at hlen
    omega
  · rw [List.take_append_drop, List.length_take_of_le hle]

/-- **Induction along the readings of a line.** -/
theorem readings_induction (rules : Rules) {motive : Stack → Text → Prop}
    (nil : ∀ stack, motive stack [])
    (read : ∀ stack next taken rest style, taken ≠ [] →
      readNext rules stack (taken ++ rest) = ⟨style, taken.length, next⟩ → motive next rest →
      motive stack (taken ++ rest))
    (stack : Stack) (t : Text) : motive stack t := by
  induction hn : t.length using Nat.strongRecOn generalizing stack t with
  | ind n ih =>
    by_cases ht : t = []
    · rw [ht]
      exact nil stack
    · obtain ⟨taken, rest, style, next, rfl, hne, hread⟩ := exists_readNext rules stack ht
      have hlt : rest.length < n := by
        have hpos := List.length_pos_iff.mpr hne
        rw [List.length_append] at hn
        omega
      exact read stack next taken rest style hne hread (ih rest.length hlt next rest rfl)

theorem spans_blip_eq_lineSpans (stack : Stack) (before t : Text) :
    Mode.blip.spans rules stack before t = lineSpans rules stack t := by
  induction stack, t using readings_induction rules generalizing before with
  | nil stack => rw [lineSpans_nil, Mode.spans_nil]
  | read stack next taken rest style hne hread ih =>
    rw [lineSpans, spans_blip_of_readNext hne hread, spans_blip_of_readNext hne hread, ih, ih]

theorem lineSpans_read {stack next : Stack} {taken rest : Text} {style : Option Style}
    (hne : taken ≠ [])
    (hread : readNext rules stack (taken ++ rest) = ⟨style, taken.length, next⟩) :
    lineSpans rules stack (taken ++ rest) = ⟨taken, style, next⟩ :: lineSpans rules next rest := by
  rw [lineSpans, spans_blip_of_readNext hne hread, spans_blip_eq_lineSpans]

/-! ### What is open behind a line -/

theorem carry_line_nil (stack : Stack) : Mode.blip.carry rules stack [[]] = stack := by
  rw [Mode.carry, List.foldl_cons, List.foldl_nil, Mode.spans_nil, Span.stackAfter]

theorem carry_line_read {stack next : Stack} {taken rest : Text} {style : Option Style}
    (hne : taken ≠ [])
    (hread : readNext rules stack (taken ++ rest) = ⟨style, taken.length, next⟩) :
    Mode.blip.carry rules stack [taken ++ rest] = Mode.blip.carry rules next [rest] := by
  show Span.stackAfter stack (lineSpans rules stack (taken ++ rest)) =
    Span.stackAfter next (lineSpans rules next rest)
  rw [lineSpans_read hne hread]
  rfl

/-! ### Spans cover the line -/

theorem flatMap_text_lineSpans (stack : Stack) (t : Text) :
    (lineSpans rules stack t).flatMap Span.text = t := by
  induction stack, t using readings_induction rules with
  | nil stack => rw [lineSpans_nil, List.flatMap_nil]
  | read stack next taken rest style hne hread ih =>
    rw [lineSpans_read hne hread, List.flatMap_cons, ih]

theorem text_ne_nil_of_mem_lineSpans (stack : Stack) (t : Text) :
    ∀ span ∈ lineSpans rules stack t, span.text ≠ [] := by
  induction stack, t using readings_induction rules with
  | nil stack =>
    intro span hspan
    rw [lineSpans_nil] at hspan
    exact absurd hspan List.not_mem_nil
  | read stack next taken rest style hne hread ih =>
    rw [lineSpans_read hne hread]
    exact List.forall_mem_cons.mpr ⟨hne, ih⟩

end ChipHighlight
