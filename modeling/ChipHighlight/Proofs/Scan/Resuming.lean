import ChipHighlight.Proofs.Line.Readings
import ChipHighlight.Proofs.Scan.AtOnce

/-!
# Lines that are cut behind a token

A line is cut behind its `k`-th token, and what comes after the cut is read as a line of its
own, from the stack that the `k`-th token left.  Then the moments behind that token come about
once more (`exists_resumesAt`), because a reading looks ahead only; gaps that are left out
between two tokens stand behind the cut and are left out again.  On its own line the text
stands further left, and so do its tokens (`tokens_lineMoments_moveLeft`).
-/

namespace ChipHighlight

/-! ### Further left -/

def Token.moveLeft (k : Int) (t : Token) : Token :=
  { t with column := t.column - k, start := t.start - k, stop := t.stop - k }

theorem Span.token_moveLeft (number : Int) (k offset : Nat) (span : Span) :
    (span.token number (k + offset)).moveLeft k = span.token number offset := by
  simp only [token, Token.moveLeft, Token.mk.injEq, true_and]
  omega

/-- **Spans further right** have the same tokens, moved. -/
theorem place_moveLeft (number : Int) (k offset : Nat) (spans : List Span) :
    (Span.place number (k + offset) spans).map (Token.moveLeft k) =
      Span.place number offset spans := by
  induction spans generalizing offset with
  | nil => rfl
  | cons span rest ih =>
    rw [Span.place, Span.place]
    split
    · exact ih offset
    · rw [List.map_cons, Span.token_moveLeft, Nat.add_assoc, ih]

/-! ### Where tokens end -/

/-- Where tokens that begin at an offset of a line have come to: behind the last of them. -/
def Token.endOf (offset : Int) (tokens : List Token) : Int := tokens.getLast?.elim offset Token.stop

@[simp] theorem Token.endOf_nil (offset : Int) : endOf offset [] = offset := rfl

@[simp] theorem Token.endOf_cons (offset : Int) (token : Token) (tokens : List Token) :
    endOf offset (token :: tokens) = endOf token.stop tokens := by
  rw [endOf, List.getLast?_cons, endOf]
  cases tokens.getLast? <;> rfl

/-! ### Cuts -/

variable {rules : Rules} {keepGaps : Bool} {number : Int} {offset k cut : Nat}
  {stack next there : Stack} {t taken rest : Text} {style : Option Style}

def lineMoments (rules : Rules) (keepGaps : Bool) (number : Int) (offset : Nat) (stack : Stack)
    (t : Text) : List Moment :=
  Span.moments keepGaps number offset (lineSpans rules stack t)

theorem tokens_lineMoments_moveLeft (k : Nat) :
    (Moment.tokens (lineMoments rules keepGaps number (k + offset) stack t)).map
        (Token.moveLeft k) =
      Moment.tokens (lineMoments rules keepGaps number offset stack t) := by
  rw [lineMoments, Span.tokens_moments, lineMoments, Span.tokens_moments,
    ← place_moveLeft number k offset, List.filter_map]
  rfl

theorem Job.moments_line (name : Option Text) :
    (Job.line .blip keepGaps number name t).moments rules stack =
      lineMoments rules keepGaps number 0 stack t ++
        [.ended ((Mode.blip.row rules keepGaps number stack t).ended number t)
          (Span.stackAfter stack (lineSpans rules stack t))] := by
  rw [Job.moments_eq]
  exact Scan.momentsOf_cons ..

theorem lineMoments_nil : lineMoments rules keepGaps number offset stack [] = [] := by
  rw [lineMoments, lineSpans_nil, Span.moments]

theorem lineMoments_read (hne : taken ≠ [])
    (hread : readNext rules stack (taken ++ rest) = ⟨style, taken.length, next⟩) :
    lineMoments rules keepGaps number offset stack (taken ++ rest) =
      if keeps keepGaps (Span.token number offset ⟨taken, style, next⟩) then
        .token (Span.token number offset ⟨taken, style, next⟩) next ::
          lineMoments rules keepGaps number (offset + taken.length) next rest
      else lineMoments rules keepGaps number (offset + taken.length) next rest := by
  rw [lineMoments, lineSpans_read hne hread, Span.moments_cons keepGaps number offset hne]
  rfl

/-- **A cut behind the `k`-th token** of a text: it is where that token ends, and when the rest is
read from the stack there, the other moments come about and the same is open in the end. -/
structure ResumesAt (rules : Rules) (keepGaps : Bool) (number : Int) (offset : Nat) (stack : Stack)
    (t : Text) (k cut : Nat) (there : Stack) : Prop where
  le_length : cut ≤ t.length
  end_eq : (offset + cut : Int) =
    Token.endOf offset ((Moment.tokens (lineMoments rules keepGaps number offset stack t)).take k)
  there_eq : Moment.stackAfter stack
    (Moment.upTo k (lineMoments rules keepGaps number offset stack t)) = there
  moments_eq : lineMoments rules keepGaps number (offset + cut) there (t.drop cut) =
    Moment.beyond k (lineMoments rules keepGaps number offset stack t)
  stack_eq : Span.stackAfter there (lineSpans rules there (t.drop cut)) =
    Span.stackAfter stack (lineSpans rules stack t)

theorem resumesAt_zero : ResumesAt rules keepGaps number offset stack t 0 0 stack where
  le_length := Nat.zero_le _
  end_eq := by
    rw [List.take_zero, Token.endOf_nil]
    exact Int.add_zero _
  there_eq := by rw [Moment.upTo_zero, Moment.stackAfter]
  moments_eq := by rw [Moment.beyond_zero, List.drop_zero, Nat.add_zero]
  stack_eq := by rw [List.drop_zero]

/-- One more reading in front of the cut.  The first `j` tokens of the whole have to lead where the
first `k` tokens behind this reading do. -/
theorem ResumesAt.read (hne : taken ≠ [])
    (hread : readNext rules stack (taken ++ rest) = ⟨style, taken.length, next⟩)
    (h : ResumesAt rules keepGaps number (offset + taken.length) next rest k cut there) {j : Nat} :
    let whole := lineMoments rules keepGaps number offset stack (taken ++ rest)
    let others := lineMoments rules keepGaps number (offset + taken.length) next rest
    Token.endOf offset ((Moment.tokens whole).take j) =
        Token.endOf (offset + taken.length : Nat) ((Moment.tokens others).take k) →
      Moment.stackAfter stack (Moment.upTo j whole) =
        Moment.stackAfter next (Moment.upTo k others) →
      Moment.beyond j whole = Moment.beyond k others →
      ResumesAt rules keepGaps number offset stack (taken ++ rest) j (taken.length + cut)
        there := by
  intro whole others hend hthere hbeyond
  constructor
  · rw [List.length_append]
    exact Nat.add_le_add_left h.le_length _
  · rw [hend, Int.natCast_add, ← Int.add_assoc]
    exact h.end_eq
  · rw [hthere]
    exact h.there_eq
  · rw [hbeyond, List.drop_length_add_append, ← Nat.add_assoc]
    exact h.moments_eq
  · rw [List.drop_length_add_append, lineSpans_read hne hread]
    exact h.stack_eq

theorem Token.endOf_take_succ {tokens : List Token} (hk : k + 1 ≤ tokens.length) (i j : Int) :
    endOf i (tokens.take (k + 1)) = endOf j (tokens.take (k + 1)) := by
  cases tokens with
  | nil => exact absurd hk (Nat.not_succ_le_zero k)
  | cons token tokens => rw [List.take_succ_cons, endOf_cons, endOf_cons]

theorem Moment.stackAfter_upTo_succ {moments : List Moment}
    (hk : k + 1 ≤ (tokens moments).length) (stack other : Stack) :
    stackAfter stack (upTo (k + 1) moments) = stackAfter other (upTo (k + 1) moments) := by
  cases moments with
  | nil => exact absurd hk (Nat.not_succ_le_zero k)
  | cons moment moments => cases moment <;> rfl

/-- **A line can be cut behind every token.** -/
theorem exists_resumesAt
    (hk : k ≤ (Moment.tokens (lineMoments rules keepGaps number offset stack t)).length) :
    ∃ cut there, ResumesAt rules keepGaps number offset stack t k cut there := by
  induction stack, t using readings_induction rules generalizing offset k with
  | nil stack =>
    rw [lineMoments_nil] at hk
    obtain rfl := Nat.le_zero.mp hk
    exact ⟨0, stack, resumesAt_zero⟩
  | read stack next taken rest style hne hread ih =>
    cases k with
    | zero => exact ⟨0, stack, resumesAt_zero⟩
    | succ k =>
      have hmoments : lineMoments rules keepGaps number offset stack (taken ++ rest) = _ :=
        lineMoments_read hne hread
      rw [hmoments] at hk
      by_cases hkeeps : keeps keepGaps (Span.token number offset ⟨taken, style, next⟩) = true
      · rw [if_pos hkeeps] at hk hmoments
        obtain ⟨cut, there, hcut⟩ := ih (Nat.le_of_succ_le_succ hk)
        refine ⟨_, there, hcut.read hne hread (j := k + 1) ?_ ?_ ?_⟩
        · rw [hmoments, Moment.tokens_token, List.take_succ_cons, Token.endOf_cons]
          rfl
        · rw [hmoments]
          rfl
        · rw [hmoments]
          rfl
      · -- a gap is left out, and the token is one of those behind it
        rw [if_neg hkeeps] at hk hmoments
        obtain ⟨cut, there, hcut⟩ := ih hk
        refine ⟨_, there, hcut.read hne hread (j := k + 1) ?_ ?_ ?_⟩
        · rw [hmoments]
          exact Token.endOf_take_succ hk _ _
        · rw [hmoments]
          exact Moment.stackAfter_upTo_succ hk _ _
        · rw [hmoments]

end ChipHighlight
