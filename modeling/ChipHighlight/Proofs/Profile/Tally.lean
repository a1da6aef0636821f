import ChipHighlight.Profile
import ChipHighlight.Proofs.Highlighter.InOrder
import Mathlib.Algebra.Order.Ring.Int

/-!
# What is counted of a line

A profile adds up tallies, one for each line that was read to its end (`follow_eq_plus`).
The tally of a line is its length and the number of the tokens that were handed out for it,
which are those that stand on it: `Tally.ofLines` counts them for consecutive lines out of
all tokens of a scan, without looking at a single event.
-/

namespace ChipHighlight

structure Tally where
  chars : Int
  tokens : Int
deriving DecidableEq, Repr

/-! ### Profiles -/

def Event.tally? : Event → Option Tally
  | .lineEnd _ chars tokens _ => some ⟨chars, tokens⟩
  | _ => none

namespace Tally

def ofEvents (events : List Event) : List Tally := events.filterMap Event.tally?

@[simp] theorem ofEvents_nil : ofEvents [] = [] := rfl

theorem ofEvents_append (events more : List Event) :
    ofEvents (events ++ more) = ofEvents events ++ ofEvents more := List.filterMap_append

end Tally

namespace Profile

def plus (p : Profile) (tallies : List Tally) : Profile where
  lines := p.lines + tallies.length
  tokens := p.tokens + (tallies.map Tally.tokens).sum
  chars := p.chars + (tallies.map Tally.chars).sum

@[simp] theorem plus_nil (p : Profile) : p.plus [] = p := by
  simp [plus]

theorem plus_append (p : Profile) (tallies more : List Tally) :
    p.plus (tallies ++ more) = (p.plus tallies).plus more := by
  simp only [plus, List.length_append, List.map_append, List.sum_append, Int.natCast_add,
    Int.add_assoc]

theorem plus_singleton (p : Profile) (chars tokens : Int) :
    p.plus [⟨chars, tokens⟩] = p.record chars tokens := by
  simp [plus, record]

/-- **Following events is adding tallies.** -/
theorem follow_eq_plus (p : Profile) (events : List Event) :
    p.follow events = p.plus (Tally.ofEvents events) := by
  induction events generalizing p with
  | nil => rw [follow_nil, Tally.ofEvents_nil, plus_nil]
  | cons event events ih =>
    rw [follow_cons, ih]
    cases event with
    | lineEnd number chars tokens depth =>
      show (p.record chars tokens).plus _ = p.plus ([⟨chars, tokens⟩] ++ Tally.ofEvents events)
      rw [plus_append, plus_singleton]
    | configChanged | startRejected _ | converged _ => rfl

/-- The totals after some lines that gave the tokens. -/
def reading (lines : List Text) (tokens : List Token) (p : Profile) : Profile where
  lines := p.lines + lines.length
  tokens := p.tokens + tokens.length
  chars := p.chars + (lines.map List.length).sum

/-- **The ends of lines add up** to all of their tokens and characters. -/
theorem follow_endings (p : Profile) (number : Int) {lines : List Text}
    {rows : List Row} (h : rows.length = lines.length) :
    p.follow (Row.endings number lines rows) = p.reading lines (rows.flatMap Row.tokens) := by
  induction lines generalizing p number rows with
  | nil =>
    cases List.length_eq_zero_iff.mp h
    simp [Row.endings, reading]
  | cons line lines ih =>
    obtain ⟨row, rows, rfl⟩ := List.exists_cons_of_length_eq_add_one h
    rw [Row.endings, follow_cons, ih _ _ (Nat.succ.inj h)]
    simp only [Row.ended, note, record, reading, List.length_cons, List.flatMap_cons,
      List.length_append, List.map_cons, List.sum_cons, Profile.mk.injEq]
    omega

theorem reading_inj (p : Profile) (lines : List Text) (tokens others : List Token) :
    p.reading lines tokens = p.reading lines others ↔ tokens.length = others.length := by
  simp only [reading, Profile.mk.injEq, true_and, and_true]
  omega

end Profile

/-! ### Lines -/

theorem Row.Numbered.le_line {number : Int} {rows : List Row} (h : Numbered number rows)
    {token : Token} (htoken : token ∈ rows.flatMap Row.tokens) : number ≤ token.line := by
  obtain ⟨row, hrow, hmem⟩ := List.mem_flatMap.mp htoken
  obtain ⟨i, hi⟩ := List.mem_iff_getElem?.mp hrow
  rw [(h i row hi).line_eq token hmem]
  omega

namespace Tally

/-- **The tallies of consecutive lines**, of which the first has the given number, with the
tokens that stand on them. -/
def ofLines (tokens : List Token) : Int → List Text → List Tally
  | _, [] => []
  | number, line :: lines =>
    ⟨line.length, tokens.countP fun token => token.line = number⟩ ::
      ofLines tokens (number + 1) lines

theorem ofLines_append (tokens : List Token) (number : Int) (lines more : List Text) :
    ofLines tokens number (lines ++ more) =
      ofLines tokens number lines ++ ofLines tokens (number + lines.length) more := by
  induction lines generalizing number with
  | nil => rw [List.nil_append, List.length_nil, Int.natCast_zero, Int.add_zero]; rfl
  | cons line lines ih =>
    rw [List.cons_append, ofLines, ih, ofLines, List.length_cons, List.cons_append]
    congr 3
    omega

theorem ofLines_append_left {front : List Token} (tokens : List Token) {number : Int}
    (h : ∀ token ∈ front, token.line < number) (lines : List Text) :
    ofLines (front ++ tokens) number lines = ofLines tokens number lines := by
  induction lines generalizing number with
  | nil => rfl
  | cons line lines ih =>
    have hnone : (front.countP fun token => token.line = number) = 0 :=
      List.countP_eq_zero.mpr fun token htoken => by
        have := h token htoken
        simp only [decide_eq_true_iff]
        omega
    rw [ofLines, ih fun token htoken => Int.lt_add_one_of_le (Int.le_of_lt (h token htoken)),
      List.countP_append, hnone, Nat.zero_add, ofLines]

theorem ofLines_append_right (tokens : List Token) {more : List Token} {number : Int}
    {lines : List Text} (h : ∀ token ∈ more, number + lines.length ≤ token.line) :
    ofLines (tokens ++ more) number lines = ofLines tokens number lines := by
  induction lines generalizing number with
  | nil => rfl
  | cons line lines ih =>
    rw [List.length_cons] at h
    have hnone : (more.countP fun token => token.line = number) = 0 :=
      List.countP_eq_zero.mpr fun token htoken => by
        have := h token htoken
        simp only [decide_eq_true_iff]
        omega
    have hothers : ∀ token ∈ more, number + 1 + lines.length ≤ token.line := by
      intro token htoken
      have := h token htoken
      omega
    rw [ofLines, ih hothers, List.countP_append, hnone, Nat.add_zero, ofLines]

/-- **The ends of lines that are read at once** say how many characters and tokens stand on
each. -/
theorem ofEvents_endings {number : Int} {lines : List Text} {rows : List Row}
    (hrows : Row.Numbered number rows) (hlength : rows.length = lines.length) :
    ofEvents (Row.endings number lines rows) =
      ofLines (rows.flatMap Row.tokens) number lines := by
  induction lines generalizing number rows with
  | nil => cases rows <;> rfl
  | cons line lines ih =>
    obtain ⟨row, rows, rfl⟩ := List.exists_cons_of_length_eq_add_one hlength
    have hrow : ∀ token ∈ row.tokens, token.line = number := fun token htoken =>
      ((hrows 0 row rfl).line_eq token htoken).trans (Int.add_zero number)
    have hothers : Row.Numbered (number + 1) rows := hrows.drop 1
    have hcount : ((row.tokens ++ rows.flatMap Row.tokens).countP
        fun token => token.line = number) = row.tokens.length := by
      have hall : (row.tokens.countP fun token => token.line = number) = row.tokens.length :=
        List.countP_eq_length.mpr fun token htoken => decide_eq_true (hrow token htoken)
      have hnone : ((rows.flatMap Row.tokens).countP fun token => token.line = number) = 0 :=
        List.countP_eq_zero.mpr fun token htoken => by
          have := hothers.le_line htoken
          simp only [decide_eq_true_iff]
          omega
      rw [List.countP_append, hall, hnone, Nat.add_zero]
    rw [List.flatMap_cons, ofLines, hcount, ofLines_append_left, ← ih hothers (Nat.succ.inj hlength)]
    · rfl
    · intro token htoken
      rw [hrow token htoken]
      exact Int.lt_succ number

end Tally

/-! ### Updates -/

namespace Highlighter

theorem tallies_refreshEvents (h : Highlighter) (config : Config) :
    Tally.ofEvents (h.refreshEvents config) = [] := by
  unfold refreshEvents
  split <;> rfl

theorem tallies_startEvents (h : Highlighter) (first : Int) :
    Tally.ofEvents (h.startEvents first) = [] := by
  unfold startEvents
  split <;> rfl

/-- **An update counts what it reads again**, and nothing else that it reports. -/
theorem tallies_update (h : Highlighter) (config : Config) (lines : List Text) (first : Int) :
    Tally.ofEvents (h.update config lines first).events =
      Tally.ofEvents ((h.refresh config).rescanFrom config.rules
        ((h.refresh config).startOf first lines) lines).events := by
  unfold update
  dsimp only
  rw [Tally.ofEvents_append, Tally.ofEvents_append, tallies_refreshEvents, tallies_startEvents]
  rfl

end Highlighter

end ChipHighlight
