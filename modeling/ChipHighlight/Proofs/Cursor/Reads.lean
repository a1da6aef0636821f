import ChipHighlight.Cursor.Basic
import ChipHighlight.Proofs.Line.Readings

/-!
# Reading a line at a cursor

A host reads a line by moving a cursor: as long as the cursor is not at the end it
begins a span at its place, asks for a reading there, and takes the text that the
cursor then stands behind.  `Reads` is this loop.  It has a step only where the cursor
can read at all, so that `Reads c stack spans` also says that no reading fails.

Where the place is not negative a reading is that of the text behind it
(`read?_of_nonneg`).  So the loop runs from the beginning of any line to its end, and
finds `lineSpans` (`reads_ofLine`).
-/

namespace ChipHighlight.Cursor

/-! ### Readings at places from zero on -/

theorem rest?_of_nonneg {c : Cursor} (h : 0 ≤ c.place) :
    c.rest? = some (c.line.drop c.place.toNat) := by
  unfold rest?
  by_cases hend : c.atEnd = true
  · have hle : (c.line.length : Int) ≤ c.place := by
      simpa [atEnd] using hend
    rw [if_pos hend, List.drop_of_length_le (by omega)]
  · rw [if_neg hend, if_pos h]

theorem slice_add {α : Type} (l : List α) {i : Int} (h : 0 ≤ i) (n : Nat) :
    Index.slice l i (i + n) = (l.drop i.toNat).take n := by
  have hi : Index.clamp l.length i = min i.toNat l.length := by
    rw [Index.clamp, Index.fromStart, if_neg (by omega)]
  have hj : Index.clamp l.length (i + n) = min (i.toNat + n) l.length := by
    rw [Index.clamp, Index.fromStart, if_neg (by omega)]
    omega
  rw [Index.slice, hi, hj, ← List.take_eq_take_min, List.drop_take]
  by_cases hle : i.toNat ≤ l.length
  · rw [Nat.min_eq_left hle, Nat.add_sub_cancel_left]
  · have hge : l.length ≤ i.toNat := by omega
    rw [Nat.min_eq_right hge, List.drop_length, List.drop_of_length_le hge, List.take_nil,
      List.take_nil]

variable {rules : Rules}

/-- **A reading at a place is one of the text behind it.** -/
theorem read?_of_nonneg {c : Cursor} (h : 0 ≤ c.place) (stack : Stack) :
    c.read? rules stack = some (readNext rules stack (c.line.drop c.place.toNat)) := by
  rw [read?, rest?_of_nonneg h, Option.map_some, Option.some_inj]
  cases stack with
  | cons a outer => rfl
  | nil =>
    cases hrest : c.line.drop c.place.toNat with
    | nil => rfl
    | cons d t =>
      dsimp only
      split
      · rename_i hword
        rw [slice_add c.line h, hrest, readNext_base, readLexeme, Lexeme.reading, hword]
        rfl
      · rfl

/-! ### The loop -/

/-- **Reading a line at a cursor**, span after span, up to its end. -/
inductive Reads (rules : Rules) : Cursor → Stack → List Span → Prop
  | ended {c : Cursor} (stack : Stack) : c.atEnd = true → Reads rules c stack []
  | span {c : Cursor} {stack : Stack} {reading : Reading} {rest : List Span} :
      c.atEnd = false → c.beginSpan.read? rules stack = some reading →
      Reads rules (c.beginSpan.advance reading.length) reading.stack rest →
      Reads rules c stack
        (⟨(c.beginSpan.advance reading.length).spanText, reading.style, reading.stack⟩ :: rest)

theorem reads_behind (before : Text) (spanStart : Int) (stack : Stack) (t : Text) :
    Reads rules ⟨before ++ t, before.length, spanStart⟩ stack (lineSpans rules stack t) := by
  induction stack, t using readings_induction rules generalizing before spanStart with
  | nil stack =>
    rw [lineSpans_nil, List.append_nil]
    exact .ended stack (by simp [atEnd])
  | read stack next taken rest style hne hread ih =>
    rw [lineSpans_read hne hread]
    let c : Cursor := ⟨before ++ (taken ++ rest), before.length, spanStart⟩
    have hpos := List.length_pos_iff.mpr hne
    have hbegun : c.atEnd = false := by
      simp only [c, atEnd, List.length_append, decide_eq_false_iff_not]
      omega
    have hreading : c.beginSpan.read? rules stack = some ⟨style, taken.length, next⟩ := by
      rw [read?_of_nonneg (Int.natCast_nonneg _), ← hread]
      show some (readNext rules stack ((before ++ (taken ++ rest)).drop before.length)) = _
      rw [List.drop_left]
    have htext : (c.beginSpan.advance taken.length).spanText = taken := by
      show Index.slice (before ++ (taken ++ rest)) before.length (before.length + taken.length) = _
      rw [slice_add _ (Int.natCast_nonneg _), Int.toNat_natCast, List.drop_left, List.take_left]
    have hrest := ih (before ++ taken) before.length
    rw [List.append_assoc, List.length_append, Int.natCast_add] at hrest
    have hspan := Reads.span hbegun hreading hrest
    rwa [htext] at hspan

/-- **Any line is read to its end**, and the spans are those of the line. -/
theorem reads_ofLine (rules : Rules) (stack : Stack) (line : Text) :
    Reads rules (ofLine line) stack (lineSpans rules stack line) :=
  reads_behind [] 0 stack line

end ChipHighlight.Cursor
