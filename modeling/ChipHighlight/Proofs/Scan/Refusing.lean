import ChipHighlight.Log
import ChipHighlight.Profile
import ChipHighlight.Proofs.Line.Tiling
import ChipHighlight.Proofs.Scan.AtOnce

/-!
# Lines that are cut short

A mode may refuse to go on, and then the line ends there.  Here the mode is one that
refuses in front of a character and reads like the mode of the notation everywhere else
(`Mode.RefusesAt`).  The refusal is felt only where a reading begins, so the character may
well stand inside of a span.  The spans of such a line are the first ones of the whole
line, and at most one more, which is empty and leaves open what was open,

    mode.spans rules stack [] line = front ++ refused    (`RefusesAt.spans_eq`),

where `front` goes on as long as no span begins with that character.  So the tokens and
what is open behind them are those of `front`, which a scan of the whole line comes to
when it is asked for just these tokens (`Scan.pull_ofLine_blip`).  All else is as at the
end of any line: `RefusesAt.truncates`.
-/

namespace ChipHighlight

/-! ### Spans and their tokens -/

namespace Span

variable (number : Int) (offset : Nat) {spans : List Span}

theorem stackAfter_append (stack : Stack) (front spans : List Span) :
    stackAfter stack (front ++ spans) = stackAfter (stackAfter stack front) spans := by
  induction front generalizing stack with
  | nil => rfl
  | cons span rest ih => exact ih span.stack

theorem place_append_empty (spans : List Span) (style : Option Style) (stack : Stack) :
    place number offset (spans ++ [⟨[], style, stack⟩]) = place number offset spans := by
  induction spans generalizing offset with
  | nil => rfl
  | cons span rest ih =>
    rw [List.cons_append, place, place]
    split
    · exact ih offset
    · rw [ih]

theorem place_cons {span : Span} (h : span.text ≠ []) (rest : List Span) :
    place number offset (span :: rest) =
      span.token number offset :: place number (offset + span.text.length) rest := by
  rw [place, if_neg (by simpa using h)]

theorem length_place (h : ∀ span ∈ spans, span.text ≠ []) :
    (place number offset spans).length = spans.length := by
  induction spans generalizing offset with
  | nil => rfl
  | cons span rest ih =>
    obtain ⟨hne, hrest⟩ := List.forall_mem_cons.mp h
    rw [place_cons number offset hne, List.length_cons, ih _ hrest, List.length_cons]

/-- Tokens have the texts of their spans, so they go on as long as the spans do. -/
theorem takeWhile_place (p : Text → Bool) (h : ∀ span ∈ spans, span.text ≠ []) :
    (place number offset spans).takeWhile (fun token => p token.text) =
      place number offset (spans.takeWhile fun span => p span.text) := by
  induction spans generalizing offset with
  | nil => rfl
  | cons span rest ih =>
    obtain ⟨hne, hrest⟩ := List.forall_mem_cons.mp h
    rw [place_cons number offset hne, List.takeWhile_cons, List.takeWhile_cons]
    show (if p span.text then _ else _) = _
    split
    · rw [ih _ hrest, place_cons number offset hne]
    · rfl

theorem moments_keepGaps_cons {span : Span} (h : span.text ≠ []) (rest : List Span) :
    moments true number offset (span :: rest) =
      .token (span.token number offset) span.stack ::
        moments true number (offset + span.text.length) rest :=
  (moments_cons true number offset h rest).trans (if_pos rfl)

theorem upTo_moments (h : ∀ span ∈ spans, span.text ≠ []) (n : Nat) :
    Moment.upTo n (moments true number offset spans) =
      moments true number offset (spans.take n) := by
  induction spans generalizing offset n with
  | nil => rw [List.take_nil, moments, Moment.upTo_nil]
  | cons span rest ih =>
    obtain ⟨hne, hrest⟩ := List.forall_mem_cons.mp h
    cases n with
    | zero => rw [List.take_zero, Moment.upTo_zero, moments]
    | succ n =>
      rw [moments_keepGaps_cons number offset hne, Moment.upTo, ih _ hrest, List.take_succ_cons,
        moments_keepGaps_cons number offset hne]

theorem stackAfter_moments (stack : Stack) (h : ∀ span ∈ spans, span.text ≠ []) :
    Moment.stackAfter stack (moments true number offset spans) = stackAfter stack spans := by
  induction spans generalizing offset stack with
  | nil => rfl
  | cons span rest ih =>
    obtain ⟨hne, hrest⟩ := List.forall_mem_cons.mp h
    rw [moments_keepGaps_cons number offset hne]
    exact ih _ _ hrest

end Span

/-- **A scan of a line with its gaps**, asked for no more tokens than there are, takes that
many spans. -/
theorem Scan.pull_ofLine_blip (rules : Rules) (number : Int) (stack : Stack) (line : Text) {n : Nat}
    (hn : n ≤ (lineSpans rules stack line).length) :
    let batch := (Scan.ofLine .blip true number line).pull rules n stack
    let spans := (lineSpans rules stack line).take n
    batch.tokens = Span.place number 0 spans ∧ batch.stack = Span.stackAfter stack spans := by
  intro batch spans
  have hall : ∀ span ∈ lineSpans rules stack line, span.text ≠ [] :=
    text_ne_nil_of_mem_lineSpans stack line
  have hfront : ∀ span ∈ spans, span.text ≠ [] :=
    fun span hspan => hall span (List.mem_of_mem_take hspan)
  have htakes : batch.Takes rules n stack (momentsOf .blip rules true number stack [line]) :=
    takes_pull rules n stack (Scan.ofLine .blip true number line)
  have hlength : n ≤ (Moment.tokens (tokenMoments .blip rules true number stack line)).length := by
    rw [tokens_tokenMoments, tokens_row_keepGaps, Span.length_place number 0 hall]
    exact hn
  have htaken : Moment.upTo n (momentsOf .blip rules true number stack [line]) =
      Span.moments true number 0 spans := by
    rw [momentsOf_cons, Moment.upTo_append_of_le hlength]
    exact Span.upTo_moments number 0 hall n
  constructor
  · rw [htakes.tokens_eq, htaken, Span.tokens_moments]
    exact List.filter_eq_self.mpr fun _ _ => rfl
  · rw [htakes.stack_eq, htaken, Span.stackAfter_moments number 0 stack hfront]

/-- **The part of a line before the first token that begins with `stop`**, read in the mode of
the notation, and a scan that has just given this part. -/
theorem Scan.pull_front (stop : Option Char) (rules : Rules) (number : Int) (stack : Stack)
    (line : Text) :
    let whole := (Mode.blip.transcribeLine rules true number stack line).tokens
    let front := whole.takeWhile fun token => !Mode.stopsAt stop token.text
    let past := (Scan.ofLine .blip true number line).pull rules front.length stack
    let spans := (lineSpans rules stack line).takeWhile fun span => !Mode.stopsAt stop span.text
    front = Span.place number 0 spans ∧ front.length = spans.length ∧ past.tokens = front ∧
      past.stack = Span.stackAfter stack spans := by
  intro whole front past spans
  have hall : ∀ span ∈ lineSpans rules stack line, span.text ≠ [] :=
    text_ne_nil_of_mem_lineSpans stack line
  have hpart : spans <+: lineSpans rules stack line := List.takeWhile_prefix _
  have hwhole : whole = Span.place number 0 (lineSpans rules stack line) :=
    (List.append_nil _).trans (tokens_row_keepGaps rules number stack line)
  have hfront : front = Span.place number 0 spans := by
    show whole.takeWhile _ = _
    rw [hwhole]
    exact Span.takeWhile_place number 0 (fun t => !Mode.stopsAt stop t) hall
  have hlength : front.length = spans.length := by
    rw [hfront, Span.length_place]
    exact fun span hspan => hall span (hpart.subset hspan)
  obtain ⟨htokens, hstack⟩ := pull_ofLine_blip rules number stack line hpart.length_le
  rw [← List.prefix_iff_eq_take.mp hpart, ← hlength] at htokens hstack
  exact ⟨hfront, hlength, htokens.trans hfront.symm, hstack⟩

namespace Mode

/-! ### Modes that refuse -/

/-- **A mode that refuses to go on in front of `stop`**, if a character is given, and that
otherwise reads like the mode of the notation.  Where it refuses nothing is taken and
nothing opened or closed. -/
structure RefusesAt (mode : Mode) (stop : Option Char) : Prop where
  refuses : ∀ (rules : Rules) (stack : Stack) (before rest : Text), stopsAt stop rest = true →
    ∃ style, mode.read rules stack before rest = ⟨style, 0, stack⟩
  reads : ∀ (rules : Rules) (stack : Stack) (before rest : Text), stopsAt stop rest = false →
    mode.read rules stack before rest = blip.read rules stack before rest

theorem refusesAt_stopping (start : Stack) (stop : Option Char) :
    (stopping start stop).RefusesAt stop where
  refuses _ _ _ _ h := ⟨none, if_pos h⟩
  reads _ _ _ _ h := if_neg (Bool.eq_false_iff.mp h)

theorem stopsAt_append (stop : Option Char) {taken : Text} (h : taken ≠ []) (rest : Text) :
    stopsAt stop (taken ++ rest) = stopsAt stop taken := by
  cases taken with
  | nil => exact absurd rfl h
  | cons c t => cases stop <;> rfl

namespace RefusesAt

variable {mode : Mode} {stop : Option Char}

theorem spans_eq (h : mode.RefusesAt stop) (rules : Rules) (stack : Stack) (before t : Text) :
    let front := (lineSpans rules stack t).takeWhile fun span => !stopsAt stop span.text
    mode.spans rules stack before t = front ∨
      ∃ style, mode.spans rules stack before t =
        front ++ [⟨[], style, Span.stackAfter stack front⟩] := by
  dsimp only
  induction stack, t using readings_induction rules generalizing before with
  | nil stack =>
    rw [spans_nil, lineSpans_nil]
    exact Or.inl rfl
  | read stack next taken rest style hne hread ih =>
    obtain ⟨c, t, rfl⟩ := List.exists_cons_of_ne_nil hne
    rw [lineSpans_read hne hread, List.takeWhile_cons]
    cases hstop : stopsAt stop (c :: t) with
    | true =>
      obtain ⟨shown, hrefused⟩ := h.refuses rules stack before (c :: t ++ rest)
        ((stopsAt_append stop hne rest).trans hstop)
      exact Or.inr ⟨shown, spans_refused hrefused⟩
    | false =>
      have hlike : mode.read rules stack before (c :: (t ++ rest)) = ⟨style, t.length + 1, next⟩ :=
        (h.reads rules stack before (c :: t ++ rest)
          ((stopsAt_append stop hne rest).trans hstop)).trans hread
      rw [List.cons_append, spans_read hlike, List.take_left, List.drop_left]
      rcases ih ((c :: t).reverse ++ before) with hrest | ⟨shown, hrest⟩
      · exact Or.inl (congrArg _ hrest)
      · exact Or.inr ⟨shown, congrArg _ hrest⟩

theorem row_eq (h : mode.RefusesAt stop) (rules : Rules) (keepGaps : Bool) (number : Int)
    (stack : Stack) (line : Text) :
    mode.row rules keepGaps number stack line = .ofSpans keepGaps number stack
      ((lineSpans rules stack line).takeWhile fun span => !stopsAt stop span.text) := by
  rw [Mode.row]
  rcases h.spans_eq rules stack [] line with hspans | ⟨style, hspans⟩
  · rw [hspans]
  · rw [hspans, Row.ofSpans, Row.ofSpans, Span.place_append_empty, Span.stackAfter_append]
    rfl

/-- The mode is asked once for each span that is left, and once to refuse. -/
theorem length_spans_le (h : mode.RefusesAt stop) (rules : Rules) (stack : Stack) (line : Text) :
    (mode.spans rules stack [] line).length ≤
      ((lineSpans rules stack line).takeWhile fun span => !stopsAt stop span.text).length + 1 := by
  rcases h.spans_eq rules stack [] line with hspans | ⟨style, hspans⟩
  · rw [hspans]
    exact Nat.le_succ _
  · rw [hspans, List.length_append, List.length_singleton]

/-- **A mode that refuses cuts lines short and does nothing else.**  `whole` is the whole
line with its gaps, `front` is the longest part of it before a token that begins with
`stop`, and `past` is a scan of the whole line that has just given this part.  A line read
in the mode gives the tokens of `front` and leaves what is open in `past`, also when it is
asked for one token after the other, until it has no more.  Then its end is logged and
counted like any other, once, with all of its characters. -/
theorem truncates (h : mode.RefusesAt stop) (rules : Rules) (keepGaps : Bool) (number : Int)
    (stack : Stack) (line : Text) :
    let whole := (blip.transcribeLine rules true number stack line).tokens
    let front := whole.takeWhile fun token => !stopsAt stop token.text
    let past := (Scan.ofLine blip true number line).pull rules front.length stack
    let tokens := front.filter (keeps keepGaps)
    let ended := Event.lineEnd number line.length tokens.length past.stack.length
    past.tokens = front ∧
      mode.transcribeLine rules keepGaps number stack line = ⟨tokens, [ended], past.stack⟩ ∧
      (mode.spans rules stack [] line).length ≤ front.length + 1 ∧
      (∀ n, tokens.length < n →
        let batch := (Scan.ofLine mode keepGaps number line).pull rules n stack
        batch.finished = true ∧ batch.tokens = tokens ∧ batch.events = [ended] ∧
          batch.stack = past.stack) ∧
      Log.ofEvents [ended] = (if past.stack = [] then []
        else [⟨"DEBUG".toList, Log.reading, "Line ".toList ++ Text.ofInt number ++
          " ends inside ".toList ++ Text.ofNat past.stack.length ++ " open literal(s)".toList⟩]) ∧
      ∀ profile : Profile, profile.follow [ended] = profile.record line.length tokens.length := by
  intro whole front past tokens ended
  obtain ⟨hfront, hlength, hpast, hstack⟩ := Scan.pull_front stop rules number stack line
  have hrow : mode.row rules keepGaps number stack line = ⟨tokens, past.stack⟩ := by
    rw [h.row_eq, Row.ofSpans, ← hfront, ← hstack]
  have htranscript : mode.transcribeLine rules keepGaps number stack line =
      ⟨tokens, [ended], past.stack⟩ := by
    rw [transcribeLine, transcribe, rows, hrow]
    show Transcript.mk (tokens ++ []) [ended] past.stack = _
    rw [List.append_nil]
  refine ⟨hpast, htranscript, ?_, ?_, ?_, fun _ => rfl⟩
  · rw [hlength]
    exact h.length_spans_le rules stack line
  · intro n hn
    have hpull := Scan.pull_numbered mode rules keepGaps number stack [line] n
    rw [show mode.transcribe rules keepGaps number stack [line] = _ from htranscript] at hpull
    exact hpull hn
  · show List.filterMap Log.record? [.lineEnd number line.length tokens.length _] = _
    cases past.stack with
    | nil => rfl
    | cons a outer => rfl

/-- The first span ends behind the quote that closes the inner literal.  The character it
stops at stands inside of this span and right behind it. -/
theorem cut_inside_a_literal :
    let a : Literal := { opening := ['['], closing := [']'] }
    let mode := stopping [] (some 'x')
    let line := "ax]xb] c4".toList
    let tokens : List Token := [⟨some .string, "ax]".toList, 3, 1, 0, 3⟩]
    let ended := Event.lineEnd 3 9 1 1
    mode.RefusesAt (some 'x') ∧
      mode.transcribeLine {} false 3 [a, a] line = ⟨tokens, [ended], [a]⟩ ∧
      ((Scan.ofLine mode false 3 line).pull {} 2 [a, a]).finished = true ∧
      (Log.ofEvents [ended]).map Log.Record.message =
        ["Line 3 ends inside 1 open literal(s)".toList] ∧
      ({} : Profile).follow [ended] = ⟨1, 1, 9⟩ := by
  intro a mode line tokens ended
  have h : mode.RefusesAt (some 'x') := refusesAt_stopping [] (some 'x')
  obtain ⟨-, htranscript, -, hpull, -⟩ := h.truncates {} false 3 [a, a] line
  exact ⟨h, htranscript.trans (by decide +kernel), (hpull 2 (by decide +kernel)).1,
    by decide +kernel, rfl⟩

end RefusesAt

end Mode

end ChipHighlight
