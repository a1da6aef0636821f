import ChipHighlight.Proofs.Line.Readings

/-!
# Where styles come from

The style of a span is that of the literal that it is a part of, or that of a lexeme.  A
literal may be one that was open before a run began, or that was opened in one of those: as
long as no span began outside of literals, it is.  Once a span did, whatever is open was
opened by the run.

So a run can note on the way where each style comes from: `traceLines` reads lines as
`Mode.transcribe` does (`traceLines_eq`), and remembers whether a span began outside.
-/

namespace ChipHighlight

inductive Origin
  /-- From a literal that was open before the run, or one inside of it. -/
  | carried
  /-- From a literal that the run opened outside of literals. -/
  | opened
  | lexeme (kind : LexemeKind)
deriving DecidableEq, Repr

/-- The origin of the span at the beginning of a text `c :: t`, if `outside` says whether
an earlier one began outside of literals. -/
def Origin.of (lenient outside : Bool) (stack : Stack) (c : Char) (t : Text) : Origin :=
  match stack with
  | _ :: _ => if outside then opened else carried
  | [] =>
    match (Lexeme.read lenient c t).kind with
    | .quote _ => opened
    | kind => lexeme kind

/-- What a run gives that notes the origins: the tokens that are handed out, whether a span
began outside of literals, and what is open in the end. -/
structure Trace where
  tokens : List (Token × Origin)
  outside : Bool
  stack : Stack

namespace Trace

def cons (keepGaps : Bool) (token : Token) (origin : Origin) (trace : Trace) : Trace :=
  if keeps keepGaps token then { trace with tokens := (token, origin) :: trace.tokens } else trace

def ofLine (rules : Rules) (keepGaps : Bool) (number : Int) (offset : Nat) (outside : Bool)
    (stack : Stack) : Text → Trace
  | [] => ⟨[], outside, stack⟩
  | c :: t =>
    let reading := readNext rules stack (c :: t)
    let span : Span := ⟨(c :: t).take reading.length, reading.style, reading.stack⟩
    cons keepGaps (span.token number offset) (.of rules.lenient outside stack c t)
      (ofLine rules keepGaps number (offset + span.text.length) (outside || stack.isEmpty)
        reading.stack ((c :: t).drop reading.length))
termination_by text => text.length
decreasing_by
  have hpos := length_readNext_pos rules stack (List.cons_ne_nil c t)
  rw [List.length_drop, List.length_cons]
  omega

def ofLines (rules : Rules) (keepGaps : Bool) : Int → Bool → Stack → List Text → Trace
  | _, outside, stack, [] => ⟨[], outside, stack⟩
  | number, outside, stack, line :: rest =>
    let first := ofLine rules keepGaps number 0 outside stack line
    let others := ofLines rules keepGaps (number + 1) first.outside first.stack rest
    { others with tokens := first.tokens ++ others.tokens }

variable {rules : Rules} {keepGaps : Bool}

theorem ofLine_nil (number : Int) (offset : Nat) (outside : Bool) (stack : Stack) :
    ofLine rules keepGaps number offset outside stack [] = ⟨[], outside, stack⟩ := by
  rw [ofLine]

theorem ofLine_read {stack next : Stack} {c : Char} {t rest : Text} {style : Option Style}
    (hread : readNext rules stack ((c :: t) ++ rest) = ⟨style, (c :: t).length, next⟩)
    (number : Int) (offset : Nat) (outside : Bool) :
    ofLine rules keepGaps number offset outside stack ((c :: t) ++ rest) =
      cons keepGaps (Span.token number offset ⟨c :: t, style, next⟩)
        (.of rules.lenient outside stack c (t ++ rest))
        (ofLine rules keepGaps number (offset + (c :: t).length) (outside || stack.isEmpty)
          next rest) := by
  rw [List.cons_append, ofLine, ← List.cons_append, hread]
  dsimp only
  rw [List.take_left, List.drop_left]

/-! ### A trace is what is read -/

theorem ofLine_eq (number : Int) (offset : Nat) (outside : Bool) (stack : Stack) (t : Text) :
    let trace := ofLine rules keepGaps number offset outside stack t
    let spans := lineSpans rules stack t
    trace.tokens.map Prod.fst = (Span.place number offset spans).filter (keeps keepGaps) ∧
      trace.stack = Span.stackAfter stack spans := by
  induction stack, t using readings_induction rules generalizing offset outside with
  | nil stack =>
    rw [ofLine_nil, lineSpans_nil]
    exact ⟨rfl, rfl⟩
  | read stack next taken rest style hne hread ih =>
    cases taken with
    | nil => exact absurd rfl hne
    | cons c t =>
      obtain ⟨htokens, hstack⟩ := ih (offset + (c :: t).length) (outside || stack.isEmpty)
      dsimp only
      rw [ofLine_read hread, lineSpans_read hne hread, Span.place, if_neg (by simp),
        List.filter_cons, Span.stackAfter, cons]
      split
      · refine ⟨?_, hstack⟩
        rw [List.map_cons, htokens]
      · exact ⟨htokens, hstack⟩

/-- **The trace of some lines is their transcript**, with origins. -/
theorem ofLines_eq (number : Int) (outside : Bool) (stack : Stack) (lines : List Text) :
    let trace := ofLines rules keepGaps number outside stack lines
    let transcript := Mode.blip.transcribe rules keepGaps number stack lines
    trace.tokens.map Prod.fst = transcript.tokens ∧ trace.stack = transcript.stack := by
  induction lines generalizing number outside stack with
  | nil => exact ⟨rfl, rfl⟩
  | cons line rest ih =>
    let first := ofLine rules keepGaps number 0 outside stack line
    obtain ⟨htokens, hstack⟩ : first.tokens.map Prod.fst =
        (Mode.blip.row rules keepGaps number stack line).tokens ∧
        first.stack = (Mode.blip.row rules keepGaps number stack line).stack :=
      ofLine_eq number 0 outside stack line
    obtain ⟨hrest, hfinal⟩ := ih (number + 1) first.outside first.stack
    rw [hstack] at hrest hfinal
    refine ⟨?_, ?_⟩
    · rw [ofLines, List.map_append, htokens, hstack, hrest]
      rfl
    · rw [ofLines, hstack, hfinal]
      rfl

end Trace

end ChipHighlight
