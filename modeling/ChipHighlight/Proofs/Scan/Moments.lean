import ChipHighlight.Proofs.Line.Rows
import ChipHighlight.Scan

/-!
# The moments of a scan

What a scan still comes to is a list of moments, tokens and ends of lines, in the order in
which they come about and each with what is open right behind it.  To ask for `n` tokens
is to take the moments up to the `n`-th token, or all of them when there are fewer
(`upTo`), and to leave the others (`beyond`).  So asking is additive,

    upTo (m + n) moments = upTo m moments ++ upTo n (beyond m moments)    (`upTo_add`),

and no question remains of how many tokens were asked for at a time.  The end of a line
stands behind all of its tokens, but it is among the moments that were taken only if
another token is, or all moments are.

`Scan.moments` lists them for a scan that stands anywhere, and `Scan.takes_pull` says
that this is what a scan does.
-/

namespace ChipHighlight

/-- Something that a scan comes to, and what is open right behind it. -/
inductive Moment
  | token (token : Token) (stack : Stack)
  | ended (event : Event) (stack : Stack)
deriving DecidableEq

namespace Moment

def token? : Moment → Option Token
  | token t _ => some t
  | ended _ _ => none

def event? : Moment → Option Event
  | token _ _ => none
  | ended e _ => some e

def stack : Moment → Stack
  | token _ stack | ended _ stack => stack

def tokens (moments : List Moment) : List Token := moments.filterMap token?

def events (moments : List Moment) : List Event := moments.filterMap event?

def stackAfter : Stack → List Moment → Stack
  | stack, [] => stack
  | _, moment :: rest => stackAfter moment.stack rest

/-- **The moments up to the `n`-th token**, or all if there are fewer tokens. -/
def upTo : Nat → List Moment → List Moment
  | 0, _ | _, [] => []
  | n + 1, token t stack :: rest => token t stack :: upTo n rest
  | n + 1, ended e stack :: rest => ended e stack :: upTo (n + 1) rest

def beyond : Nat → List Moment → List Moment
  | 0, moments => moments
  | _, [] => []
  | n + 1, token _ _ :: rest => beyond n rest
  | n + 1, ended _ _ :: rest => beyond (n + 1) rest

@[simp] theorem tokens_nil : tokens [] = [] := rfl

@[simp] theorem tokens_token (t : Token) (stack : Stack) (rest : List Moment) :
    tokens (token t stack :: rest) = t :: tokens rest := rfl

@[simp] theorem tokens_ended (e : Event) (stack : Stack) (rest : List Moment) :
    tokens (ended e stack :: rest) = tokens rest := rfl

@[simp] theorem events_nil : events [] = [] := rfl

@[simp] theorem events_token (t : Token) (stack : Stack) (rest : List Moment) :
    events (token t stack :: rest) = events rest := rfl

@[simp] theorem events_ended (e : Event) (stack : Stack) (rest : List Moment) :
    events (ended e stack :: rest) = e :: events rest := rfl

theorem tokens_append (moments more : List Moment) :
    tokens (moments ++ more) = tokens moments ++ tokens more := List.filterMap_append

theorem events_append (moments more : List Moment) :
    events (moments ++ more) = events moments ++ events more := List.filterMap_append

theorem length_eq (moments : List Moment) :
    moments.length = (tokens moments).length + (events moments).length := by
  induction moments with
  | nil => rfl
  | cons moment rest ih =>
    cases moment with
    | token t stack =>
      rw [tokens_token, events_token, List.length_cons, List.length_cons, ih, Nat.add_right_comm]
    | ended e stack =>
      rw [tokens_ended, events_ended, List.length_cons, List.length_cons, ih, Nat.add_assoc]

theorem stackAfter_append (stack : Stack) (moments more : List Moment) :
    stackAfter stack (moments ++ more) = stackAfter (stackAfter stack moments) more := by
  induction moments generalizing stack with
  | nil => rfl
  | cons moment rest ih => exact ih moment.stack

theorem stackAfter_of_getLast? (stack : Stack) {moments : List Moment} {moment : Moment}
    (h : moments.getLast? = some moment) : stackAfter stack moments = moment.stack := by
  obtain ⟨front, rfl⟩ := List.getLast?_eq_some_iff.mp h
  rw [stackAfter_append]
  rfl

@[simp] theorem upTo_zero (moments : List Moment) : upTo 0 moments = [] := by
  cases moments <;> rfl

@[simp] theorem beyond_zero (moments : List Moment) : beyond 0 moments = moments := by
  cases moments <;> rfl

@[simp] theorem upTo_nil (n : Nat) : upTo n [] = [] := by cases n <;> rfl

@[simp] theorem beyond_nil (n : Nat) : beyond n [] = [] := by cases n <;> rfl

/-! ### Up to a token and beyond it -/

theorem upTo_append_beyond (n : Nat) (moments : List Moment) :
    upTo n moments ++ beyond n moments = moments := by
  induction moments generalizing n with
  | nil => simp
  | cons moment rest ih =>
    cases n with
    | zero => simp
    | succ n =>
      cases moment with
      | token t stack => exact congrArg _ (ih n)
      | ended e stack => exact congrArg _ (ih (n + 1))

theorem tokens_upTo (n : Nat) (moments : List Moment) :
    tokens (upTo n moments) = (tokens moments).take n := by
  induction moments generalizing n with
  | nil => simp
  | cons moment rest ih =>
    cases n with
    | zero => simp
    | succ n =>
      cases moment with
      | token t stack => exact congrArg _ (ih n)
      | ended e stack => exact ih (n + 1)

theorem tokens_beyond (n : Nat) (moments : List Moment) :
    tokens (beyond n moments) = (tokens moments).drop n := by
  induction moments generalizing n with
  | nil => simp
  | cons moment rest ih =>
    cases n with
    | zero => simp
    | succ n =>
      cases moment with
      | token t stack => exact ih n
      | ended e stack => exact ih (n + 1)

/-- **Asking is additive.** -/
theorem upTo_add (m n : Nat) (moments : List Moment) :
    upTo (m + n) moments = upTo m moments ++ upTo n (beyond m moments) := by
  induction moments generalizing m with
  | nil => simp
  | cons moment rest ih =>
    cases m with
    | zero => simp
    | succ m =>
      rw [Nat.add_right_comm]
      cases moment with
      | token t stack => exact congrArg _ (ih m)
      | ended e stack =>
        have h := ih (m + 1)
        rw [Nat.add_right_comm] at h
        exact congrArg _ h

theorem beyond_add (m n : Nat) (moments : List Moment) :
    beyond (m + n) moments = beyond n (beyond m moments) := by
  induction moments generalizing m with
  | nil => simp
  | cons moment rest ih =>
    cases m with
    | zero => simp
    | succ m =>
      rw [Nat.add_right_comm]
      cases moment with
      | token t stack => exact ih m
      | ended e stack =>
        have h := ih (m + 1)
        rw [Nat.add_right_comm] at h
        exact h

theorem upTo_append_of_le {n : Nat} {front : List Moment} (h : n ≤ (tokens front).length)
    (moments : List Moment) : upTo n (front ++ moments) = upTo n front := by
  induction front generalizing n with
  | nil =>
    rw [Nat.le_zero.mp h, upTo_zero, upTo_zero]
  | cons moment rest ih =>
    cases n with
    | zero => simp
    | succ n =>
      cases moment with
      | token t stack => exact congrArg (List.cons _) (ih (Nat.le_of_succ_le_succ h))
      | ended e stack => exact congrArg (List.cons _) (ih h)

theorem upTo_append_of_lt {n : Nat} {front : List Moment} (h : (tokens front).length < n)
    (moments : List Moment) :
    upTo n (front ++ moments) = front ++ upTo (n - (tokens front).length) moments := by
  induction front generalizing n with
  | nil => rfl
  | cons moment rest ih =>
    obtain ⟨n, rfl⟩ := Nat.exists_eq_add_one_of_ne_zero (Nat.ne_zero_of_lt h)
    cases moment with
    | token t stack =>
      rw [tokens_token, List.length_cons, Nat.add_sub_add_right]
      exact congrArg _ (ih (Nat.lt_of_succ_lt_succ h))
    | ended e stack => exact congrArg _ (ih h)

theorem beyond_append_of_lt {n : Nat} {front : List Moment} (h : (tokens front).length < n)
    (moments : List Moment) :
    beyond n (front ++ moments) = beyond (n - (tokens front).length) moments := by
  induction front generalizing n with
  | nil => rfl
  | cons moment rest ih =>
    obtain ⟨n, rfl⟩ := Nat.exists_eq_add_one_of_ne_zero (Nat.ne_zero_of_lt h)
    cases moment with
    | token t stack =>
      rw [tokens_token, List.length_cons, Nat.add_sub_add_right]
      exact ih (Nat.lt_of_succ_lt_succ h)
    | ended e stack => exact ih h

theorem upTo_eq_self {n : Nat} {moments : List Moment} (h : (tokens moments).length < n) :
    upTo n moments = moments := by
  have hall := upTo_append_of_lt h []
  rwa [upTo_nil, List.append_nil] at hall

theorem beyond_eq_nil {n : Nat} {moments : List Moment} (h : (tokens moments).length < n) :
    beyond n moments = [] := by
  have hall := beyond_append_of_lt h []
  rwa [beyond_nil, List.append_nil] at hall

/-- As long as there are enough tokens, **the last moment that is taken is the last token**
that was asked for. -/
theorem getLast?_upTo {n : Nat} {moments : List Moment} (hpos : 0 < n)
    (h : n ≤ (tokens moments).length) :
    ∃ t stack, (upTo n moments).getLast? = some (token t stack) ∧
      (tokens (upTo n moments)).getLast? = some t := by
  induction moments generalizing n with
  | nil => exact absurd h (Nat.not_le.mpr hpos)
  | cons moment rest ih =>
    obtain ⟨n, rfl⟩ := Nat.exists_eq_add_one_of_ne_zero (Nat.ne_zero_of_lt hpos)
    cases moment with
    | token t stack =>
      cases n with
      | zero => exact ⟨t, stack, by simp [upTo], by simp [upTo]⟩
      | succ n =>
        obtain ⟨u, following, hlast, htokens⟩ := ih (Nat.succ_pos n) (Nat.le_of_succ_le_succ h)
        refine ⟨u, following, ?_, ?_⟩
        · rw [upTo, List.getLast?_cons, hlast]
          rfl
        · rw [upTo, tokens_token, List.getLast?_cons, htokens]
          rfl
    | ended e stack =>
      obtain ⟨u, following, hlast, htokens⟩ := ih hpos h
      refine ⟨u, following, ?_, ?_⟩
      · rw [upTo, List.getLast?_cons, hlast]
        rfl
      · rw [upTo, tokens_ended, htokens]

end Moment

/-! ### Spans -/

/-- The tokens of the spans of a line from the given offset on that are handed out, each
with what is open behind it. -/
def Span.moments (keepGaps : Bool) (number : Int) : Nat → List Span → List Moment
  | _, [] => []
  | offset, span :: rest =>
    if span.text.isEmpty then moments keepGaps number offset rest
    else if keeps keepGaps (span.token number offset) then
      .token (span.token number offset) span.stack ::
        moments keepGaps number (offset + span.text.length) rest
    else moments keepGaps number (offset + span.text.length) rest

theorem Span.moments_cons (keepGaps : Bool) (number : Int) (offset : Nat) {span : Span}
    (h : span.text ≠ []) (rest : List Span) :
    moments keepGaps number offset (span :: rest) =
      if keeps keepGaps (span.token number offset) then
        .token (span.token number offset) span.stack ::
          moments keepGaps number (offset + span.text.length) rest
      else moments keepGaps number (offset + span.text.length) rest := by
  rw [moments, if_neg (by simpa using h)]

theorem Span.tokens_moments (keepGaps : Bool) (number : Int) (offset : Nat) (spans : List Span) :
    Moment.tokens (moments keepGaps number offset spans) =
      (place number offset spans).filter (keeps keepGaps) := by
  induction spans generalizing offset with
  | nil => rfl
  | cons span rest ih =>
    rw [moments, place]
    split
    · exact ih offset
    · rw [List.filter_cons]
      split
      · exact congrArg _ (ih _)
      · exact ih _

theorem Span.events_moments (keepGaps : Bool) (number : Int) (offset : Nat) (spans : List Span) :
    Moment.events (moments keepGaps number offset spans) = [] := by
  induction spans generalizing offset with
  | nil => rfl
  | cons span rest ih =>
    rw [moments]
    split
    · exact ih offset
    · split
      · exact ih _
      · exact ih _

/-! ### Lines that are not finished -/

namespace OpenLine

variable (mode : Mode) (rules : Rules) (keepGaps : Bool)

/-- **What a line still comes to**: its tokens and its end. -/
def moments (stack : Stack) (line : OpenLine) : List Moment :=
  let spans := mode.spans rules stack line.before line.rest
  let tokens := Span.moments keepGaps line.number line.offset spans
  let final := Span.stackAfter stack spans
  tokens ++
    [.ended (.lineEnd line.number line.chars (line.emitted + tokens.length) final.length) final]

theorem moments_of_rest_nil (stack : Stack) {line : OpenLine} (h : line.rest = []) :
    line.moments mode rules keepGaps stack = [.ended (line.ended stack.length) stack] := by
  unfold moments
  rw [h, Mode.spans_nil]
  rfl

theorem moments_of_refused {stack next : Stack} {line : OpenLine} {c : Char} {t : Text}
    {style : Option Style} (hrest : line.rest = c :: t)
    (hread : mode.read rules stack line.before (c :: t) = ⟨style, 0, next⟩) :
    line.moments mode rules keepGaps stack = [.ended (line.ended next.length) next] := by
  unfold moments
  rw [hrest, Mode.spans_refused hread]
  rfl

theorem chars_advance {stack next : Stack} {line : OpenLine} {c : Char} {t : Text} {n : Nat}
    {style : Option Style} (hrest : line.rest = c :: t)
    (hread : mode.read rules stack line.before (c :: t) = ⟨style, n + 1, next⟩) :
    (line.advance (c :: t.take n) (t.drop n)).chars = line.chars := by
  have hle : n + 1 ≤ t.length + 1 := by
    have h := mode.within rules stack line.before (c :: t)
    rwa [hread] at h
  show line.offset + (c :: t.take n).length + (t.drop n).length = line.offset + line.rest.length
  rw [hrest, List.length_cons, List.length_take, List.length_drop, List.length_cons]
  omega

theorem moments_of_read {stack next : Stack} {line : OpenLine} {c : Char} {t : Text} {n : Nat}
    {style : Option Style} (hrest : line.rest = c :: t)
    (hread : mode.read rules stack line.before (c :: t) = ⟨style, n + 1, next⟩) :
    let token := Span.token line.number line.offset ⟨c :: t.take n, style, next⟩
    let further := line.advance (c :: t.take n) (t.drop n)
    line.moments mode rules keepGaps stack =
      if keeps keepGaps token then
        .token token next :: further.emit.moments mode rules keepGaps next
      else further.moments mode rules keepGaps next := by
  intro token further
  have hchars : further.chars = line.chars := chars_advance mode rules hrest hread
  have hemit : further.emit.chars = line.chars := hchars
  let rest := mode.spans rules next ((c :: t.take n).reverse ++ line.before) (t.drop n)
  let others := Span.moments keepGaps line.number (line.offset + (c :: t.take n).length) rest
  let final := Span.stackAfter next rest
  have hcount : line.emitted + (others.length + 1) = line.emitted + 1 + others.length := by omega
  unfold moments
  dsimp only
  rw [hrest, Mode.spans_read hread, Span.moments_cons keepGaps line.number line.offset
    (List.cons_ne_nil c (t.take n)), hemit, hchars]
  split
  · show Moment.token token next :: (others ++ [.ended (.lineEnd line.number line.chars
      (line.emitted + (others.length + 1)) final.length) final]) = _
    rw [hcount]
    rfl
  · rfl

/-- **Going on in a line** leads to the first of its moments. -/
theorem next_cases (stack : Stack) (line : OpenLine) :
    (∃ token further following,
      line.next mode rules keepGaps stack = .token token further following ∧
      line.moments mode rules keepGaps stack =
        .token token following :: further.moments mode rules keepGaps following) ∨
    ∃ final, line.next mode rules keepGaps stack = .finished final ∧
      line.moments mode rules keepGaps stack = [.ended (line.ended final.length) final] := by
  fun_induction OpenLine.next mode rules keepGaps stack line with
  | case1 stack line hrest =>
    exact Or.inr ⟨stack, rfl, moments_of_rest_nil mode rules keepGaps stack hrest⟩
  | case2 stack line c t hrest style final hread =>
    exact Or.inr ⟨final, rfl, moments_of_refused mode rules keepGaps hrest hread⟩
  | case3 stack line c t hrest style n following hread token hkeeps =>
    refine Or.inl ⟨token, _, following, rfl, ?_⟩
    rw [moments_of_read mode rules keepGaps hrest hread, if_pos hkeeps]
  | case4 stack line c t hrest style n following hread token hkeeps ih =>
    -- a gap is passed over, and the line ends as it did before
    rw [moments_of_read mode rules keepGaps hrest hread, if_neg hkeeps]
    have hended : ∀ depth, (line.advance (c :: t.take n) (t.drop n)).ended depth =
        line.ended depth := by
      intro depth
      rw [ended, ended, chars_advance mode rules hrest hread]
      rfl
    simpa only [hended] using ih

end OpenLine

/-! ### Scans -/

namespace Scan

def momentsIn (mode : Mode) (rules : Rules) (keepGaps : Bool) : Stack → List OpenLine → List Moment
  | _, [] => []
  | stack, line :: others =>
    let moments := line.moments mode rules keepGaps stack
    moments ++ momentsIn mode rules keepGaps (Moment.stackAfter stack moments) others

def moments (rules : Rules) (stack : Stack) (scan : Scan) : List Moment :=
  momentsIn scan.mode rules scan.keepGaps stack scan.lines

@[simp] theorem moments_close (rules : Rules) (stack : Stack) (scan : Scan) :
    scan.close.moments rules stack = [] := rfl

/-- **Asking for one token** leads through the ends of lines to the next token, or to the
end of all lines. -/
theorem nextIn_cases (mode : Mode) (rules : Rules) (keepGaps : Bool) (stack : Stack)
    (lines : List OpenLine) :
    (∃ ends token following left,
      nextIn mode rules keepGaps stack lines =
        ⟨some token, Moment.events ends, following, left⟩ ∧
      Moment.tokens ends = [] ∧
      momentsIn mode rules keepGaps stack lines =
        ends ++ .token token following :: momentsIn mode rules keepGaps following left) ∨
    ∃ ends,
      nextIn mode rules keepGaps stack lines =
        ⟨none, Moment.events ends, Moment.stackAfter stack ends, []⟩ ∧
      Moment.tokens ends = [] ∧ momentsIn mode rules keepGaps stack lines = ends := by
  induction lines generalizing stack with
  | nil => exact Or.inr ⟨[], rfl, rfl, rfl⟩
  | cons line others ih =>
    rw [momentsIn, nextIn]
    rcases line.next_cases mode rules keepGaps stack with
      ⟨token, further, following, hnext, hmoments⟩ | ⟨final, hnext, hmoments⟩
    · rw [hnext, hmoments]
      exact Or.inl ⟨[], token, following, further :: others, rfl, rfl, rfl⟩
    · rw [hnext, hmoments]
      dsimp only
      rcases ih final with
        ⟨ends, token, following, left, hin, hnone, hrest⟩ | ⟨ends, hin, hnone, hrest⟩
      · rw [hin]
        exact Or.inl ⟨.ended (line.ended final.length) final :: ends, token, following, left, rfl,
          hnone, congrArg _ hrest⟩
      · rw [hin]
        exact Or.inr ⟨.ended (line.ended final.length) final :: ends, rfl, hnone, congrArg _ hrest⟩

end Scan

/-- **A batch that takes the moments up to the `n`-th token** and leaves the others. -/
structure Batch.Takes (batch : Batch) (rules : Rules) (n : Nat) (stack : Stack)
    (moments : List Moment) : Prop where
  tokens_eq : batch.tokens = Moment.tokens (Moment.upTo n moments)
  events_eq : batch.events = Moment.events (Moment.upTo n moments)
  stack_eq : batch.stack = Moment.stackAfter stack (Moment.upTo n moments)
  moments_eq : batch.scan.moments rules batch.stack = Moment.beyond n moments
  finished_eq : batch.finished = decide ((Moment.tokens moments).length < n)

namespace Scan

/-- **Asking for `n` tokens** takes the moments up to the `n`-th, and the end is met when
there are fewer. -/
theorem takes_pull (rules : Rules) (n : Nat) (stack : Stack) (scan : Scan) :
    (scan.pull rules n stack).Takes rules n stack (scan.moments rules stack) := by
  induction n generalizing stack scan with
  | zero =>
    rw [pull]
    exact ⟨by rw [Moment.upTo_zero, Moment.tokens_nil], by rw [Moment.upTo_zero, Moment.events_nil],
      by rw [Moment.upTo_zero, Moment.stackAfter], by rw [Moment.beyond_zero], rfl⟩
  | succ n ih =>
    rw [pull, next, moments]
    rcases nextIn_cases scan.mode rules scan.keepGaps stack scan.lines with
      ⟨ends, token, following, left, hnext, hnone, hmoments⟩ | ⟨ends, hnext, hnone, hmoments⟩
    · rw [hnext, hmoments]
      obtain ⟨htokens, hevents, hstack, hrest, hfinished⟩ :=
        ih following { scan with lines := left }
      have hlt : (Moment.tokens ends).length < n + 1 := by
        rw [hnone]
        exact Nat.succ_pos n
      have htaken := Moment.upTo_append_of_lt hlt
        (.token token following :: momentsIn scan.mode rules scan.keepGaps following left)
      have hleft := Moment.beyond_append_of_lt hlt
        (.token token following :: momentsIn scan.mode rules scan.keepGaps following left)
      rw [hnone, List.length_nil, Nat.sub_zero, Moment.upTo] at htaken
      rw [hnone, List.length_nil, Nat.sub_zero, Moment.beyond] at hleft
      refine ⟨?_, ?_, ?_, ?_, ?_⟩
      · rw [htaken, Moment.tokens_append, hnone, Moment.tokens_token]
        exact congrArg _ htokens
      · rw [htaken, Moment.events_append, Moment.events_token]
        exact congrArg _ hevents
      · rw [htaken, Moment.stackAfter_append]
        exact hstack
      · rw [hleft]
        exact hrest
      · rw [Moment.tokens_append, hnone, Moment.tokens_token]
        refine hfinished.trans (decide_eq_decide.mpr ?_)
        exact Nat.succ_lt_succ_iff.symm
    · -- only ends of lines are left
      rw [hnext, hmoments]
      have hlt : (Moment.tokens ends).length < n + 1 := by
        rw [hnone]
        exact Nat.succ_pos n
      have htaken := Moment.upTo_eq_self hlt
      refine ⟨?_, ?_, ?_, ?_, ?_⟩
      · rw [htaken, hnone]
      · rw [htaken]
      · rw [htaken]
      · rw [Moment.beyond_eq_nil hlt]
        rfl
      · exact (decide_eq_true hlt).symm

end Scan

end ChipHighlight
