import ChipHighlight.Proofs.Scan.Moments
import ChipHighlight.Session.Command

/-!
# Scans that are run at once

The moments of a scan that has not begun are what its lines give when they are read at
once: `transcribe_eq` takes a transcript apart into them, and a scan that is asked to its
end gives all of it (`pull_numbered`).  Their ends of lines come in order, so those among
the moments up to the `n`-th token are the first ones, up to the line that this token
stands on (`lt_length_events_upTo_iff`).
-/

namespace ChipHighlight

namespace Scan

variable (mode : Mode) (rules : Rules) (keepGaps : Bool)

abbrev momentsOf (number : Int) (stack : Stack) (lines : List Text) : List Moment :=
  momentsIn mode rules keepGaps stack (numbered number lines)

/-- The tokens of a line, each with what is open behind it. -/
def tokenMoments (number : Int) (stack : Stack) (line : Text) : List Moment :=
  Span.moments keepGaps number 0 (mode.spans rules stack [] line)

theorem tokens_tokenMoments (number : Int) (stack : Stack) (line : Text) :
    Moment.tokens (tokenMoments mode rules keepGaps number stack line) =
      (mode.row rules keepGaps number stack line).tokens := Span.tokens_moments ..

theorem events_tokenMoments (number : Int) (stack : Stack) (line : Text) :
    Moment.events (tokenMoments mode rules keepGaps number stack line) = [] :=
  Span.events_moments ..

theorem momentsOf_cons (number : Int) (stack : Stack) (line : Text) (lines : List Text) :
    let row := mode.row rules keepGaps number stack line
    momentsOf mode rules keepGaps number stack (line :: lines) =
      tokenMoments mode rules keepGaps number stack line ++
        .ended (row.ended number line) row.stack ::
          momentsOf mode rules keepGaps (number + 1) row.stack lines := by
  intro row
  have hcount : 0 + (tokenMoments mode rules keepGaps number stack line).length =
      row.tokens.length := by
    rw [Moment.length_eq, tokens_tokenMoments, events_tokenMoments, List.length_nil,
      Nat.zero_add, Nat.add_zero]
  have hline : OpenLine.moments mode rules keepGaps stack { number := number, rest := line } =
      tokenMoments mode rules keepGaps number stack line ++
        [.ended (row.ended number line) row.stack] := by
    show tokenMoments mode rules keepGaps number stack line ++ [.ended (.lineEnd number
      (0 + line.length) (0 + (tokenMoments mode rules keepGaps number stack line).length)
      row.stack.length) row.stack] = _
    rw [hcount, Nat.zero_add]
    rfl
  rw [momentsOf, numbered, momentsIn, hline, Moment.stackAfter_append, List.append_assoc]
  rfl

theorem rows_eq_momentsOf (number : Int) (stack : Stack) (lines : List Text) :
    let moments := momentsOf mode rules keepGaps number stack lines
    let rows := mode.rows rules keepGaps number stack lines
    rows.flatMap Row.tokens = Moment.tokens moments ∧
      Row.endings number lines rows = Moment.events moments ∧
      Row.stackAfter stack rows = Moment.stackAfter stack moments := by
  induction lines generalizing number stack with
  | nil => exact ⟨rfl, rfl, rfl⟩
  | cons line lines ih =>
    let row := mode.row rules keepGaps number stack line
    obtain ⟨htokens, hevents, hstack⟩ := ih (number + 1) row.stack
    dsimp only
    rw [momentsOf_cons, Moment.tokens_append, Moment.tokens_ended, Moment.events_append,
      Moment.events_ended, Moment.stackAfter_append, tokens_tokenMoments, events_tokenMoments,
      ← htokens, ← hevents]
    exact ⟨rfl, rfl, hstack⟩

/-- **Reading at once**, taken apart into moments. -/
theorem transcribe_eq (number : Int) (stack : Stack) (lines : List Text) :
    let moments := momentsOf mode rules keepGaps number stack lines
    mode.transcribe rules keepGaps number stack lines =
      ⟨Moment.tokens moments, Moment.events moments, Moment.stackAfter stack moments⟩ := by
  obtain ⟨htokens, hevents, hstack⟩ := rows_eq_momentsOf mode rules keepGaps number stack lines
  rw [Mode.transcribe, Transcript.ofRows, htokens, hevents, hstack]

/-- **A scan that is asked to its end** gives what reading at once gives. -/
theorem pull_numbered (number : Int) (stack : Stack) (lines : List Text) (n : Nat) :
    let run := mode.transcribe rules keepGaps number stack lines
    let batch := pull rules n stack ⟨mode, keepGaps, numbered number lines⟩
    run.tokens.length < n → batch.finished = true ∧ batch.tokens = run.tokens ∧
      batch.events = run.events ∧ batch.stack = run.stack := by
  intro run batch hn
  have htakes : batch.Takes rules n stack (momentsOf mode rules keepGaps number stack lines) :=
    takes_pull rules n stack ⟨mode, keepGaps, numbered number lines⟩
  have hrun : run = _ := transcribe_eq mode rules keepGaps number stack lines
  obtain ⟨htokens, hevents, hstack, -, hfinished⟩ := htakes
  rw [hrun] at hn ⊢
  rw [Moment.upTo_eq_self hn] at htokens hevents hstack
  exact ⟨hfinished.trans (decide_eq_true hn), htokens, hevents, hstack⟩

/-- **How far a line's end is away.**  It is among the moments up to the `n`-th token
exactly if that token stands on a later line, or is not there. -/
theorem lt_length_events_upTo_iff (number : Int) (stack : Stack) {lines : List Text} {i : Nat}
    (hi : i < lines.length) (n : Nat) :
    i < (Moment.events (Moment.upTo n
        (momentsOf mode rules keepGaps number stack lines))).length ↔
      (((mode.rows rules keepGaps number stack lines).take (i + 1)).flatMap Row.tokens).length <
        n := by
  induction lines generalizing number stack i n with
  | nil => exact absurd hi (Nat.not_lt_zero i)
  | cons line lines ih =>
    let row := mode.row rules keepGaps number stack line
    let front := tokenMoments mode rules keepGaps number stack line
    have htokens : Moment.tokens front = row.tokens := tokens_tokenMoments ..
    have hnone : Moment.events front = [] := events_tokenMoments ..
    rw [momentsOf_cons, Mode.rows, List.take_succ_cons, List.flatMap_cons, List.length_append]
    change i < (Moment.events (Moment.upTo n (front ++ .ended (row.ended number line) row.stack ::
        momentsOf mode rules keepGaps (number + 1) row.stack lines))).length ↔
      row.tokens.length + (((mode.rows rules keepGaps (number + 1) row.stack lines).take
        i).flatMap Row.tokens).length < n
    by_cases hn : n ≤ row.tokens.length
    · -- the token stands on this line
      have hevents : Moment.events (Moment.upTo n front) = [] := by
        have hparts := congrArg Moment.events (Moment.upTo_append_beyond n front)
        rw [Moment.events_append, hnone] at hparts
        exact (List.append_eq_nil_iff.mp hparts).1
      rw [Moment.upTo_append_of_le (htokens ▸ hn), hevents, List.length_nil]
      omega
    · have hlt : (Moment.tokens front).length < n := by
        rw [htokens]
        omega
      obtain ⟨m, hm⟩ := Nat.exists_eq_add_one_of_ne_zero (Nat.sub_ne_zero_of_lt hlt)
      rw [Moment.upTo_append_of_lt hlt, hm, Moment.upTo, Moment.events_append, hnone,
        List.nil_append, Moment.events_ended, List.length_cons]
      rw [htokens] at hm
      cases i with
      | zero =>
        rw [List.take_zero, List.flatMap_nil, List.length_nil]
        omega
      | succ i =>
        rw [Nat.succ_lt_succ_iff,
          ih (number + 1) row.stack (Nat.lt_of_succ_lt_succ hi) (m + 1)]
        omega

end Scan

/-! ### Jobs -/

namespace Job

def mode : Job → Mode
  | document mode _ _ | line mode _ _ _ _ => mode

def keepGaps : Job → Bool
  | document _ keepGaps _ | line _ keepGaps _ _ _ => keepGaps

def number : Job → Int
  | document _ _ _ => 1
  | line _ _ number _ _ => number

def lines : Job → List Text
  | document _ _ source => linesOf source
  | line _ _ _ _ text => [text]

def rows (rules : Rules) (stack : Stack) (job : Job) : List Row :=
  job.mode.rows rules job.keepGaps job.number stack job.lines

def moments (rules : Rules) (stack : Stack) (job : Job) : List Moment :=
  job.scan.moments rules stack

theorem moments_eq (rules : Rules) (stack : Stack) (job : Job) :
    job.moments rules stack =
      Scan.momentsOf job.mode rules job.keepGaps job.number stack job.lines := by
  cases job <;> rfl

theorem transcribe_eq (rules : Rules) (stack : Stack) (job : Job) :
    let moments := job.moments rules stack
    job.transcribe rules stack =
      ⟨Moment.tokens moments, Moment.events moments, Moment.stackAfter stack moments⟩ := by
  rw [moments_eq]
  cases job with
  | document mode keepGaps source => exact Scan.transcribe_eq mode rules keepGaps 1 stack _
  | line mode keepGaps number _ text => exact Scan.transcribe_eq mode rules keepGaps number stack _

end Job

end ChipHighlight
