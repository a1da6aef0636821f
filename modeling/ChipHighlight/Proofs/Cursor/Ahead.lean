import ChipHighlight.Proofs.Cursor.Reads

/-!
# The text ahead of a cursor

A host may set the place of a cursor to any integer.  As long as the place is not before the
beginning of the line and not behind its end, some text is ahead of the cursor (`Ahead`): up to
the end, and from a place that is counted from the end then once more the whole line.  The first
character of that text is the item of the line at the place (`Ahead.get?`), one character
further the rest of it is ahead (`Ahead.next`), and a reading takes at least one character of
it and no more than there are (`Ahead.bounds`).
-/

namespace ChipHighlight.Cursor

theorem atEnd_iff {c : Cursor} : c.atEnd = true ↔ (c.line.length : Int) ≤ c.place := by
  simp [atEnd]

theorem rest?_eq_none_iff {c : Cursor} : c.rest? = none ↔ c.place < -c.line.length := by
  unfold rest?
  by_cases hend : c.atEnd = true
  · have hle := atEnd_iff.mp hend
    rw [if_pos hend]
    refine iff_of_false (by simp) ?_
    omega
  · rw [if_neg hend]
    by_cases hpos : 0 ≤ c.place
    · rw [if_pos hpos]
      refine iff_of_false (by simp) ?_
      omega
    · rw [if_neg hpos]
      by_cases hneg : -c.line.length ≤ c.place
      · rw [if_pos hneg]
        refine iff_of_false (by simp) ?_
        omega
      · rw [if_neg hneg]
        refine iff_of_true rfl ?_
        omega

theorem get?_eq {α : Type} {l : List α} {i : Int} {k : Nat} (h : Index.fromStart l.length i = k) :
    Index.get? l i = l[k]? := by
  by_cases hk : k < l.length
  · have hplace : Index.place? l.length i = some k := by simp [Index.place?, h, hk]
    rw [Index.get?, hplace]
    rfl
  · have hplace : Index.place? l.length i = none := by simp [Index.place?, h, hk]
    rw [Index.get?, hplace, List.getElem?_eq_none (by omega)]
    rfl

theorem get?_eq_none_of_lt {α : Type} {l : List α} {i : Int} (h : i < -l.length) :
    Index.get? l i = none := by
  have hstart : ¬ (0 ≤ Index.fromStart l.length i ∧ Index.fromStart l.length i < l.length) := by
    rw [Index.fromStart, if_pos (show i < 0 by omega)]
    omega
  have hplace : Index.place? l.length i = none := by rw [Index.place?, if_neg hstart]
  rw [Index.get?, hplace]
  rfl

theorem rest?_of_neg {c : Cursor} (h : c.place < 0) (hbegin : -c.line.length ≤ c.place) :
    c.rest? = some (c.line.drop (c.place + c.line.length).toNat ++ c.line) := by
  have hend : ¬ c.atEnd = true := by
    rw [atEnd_iff]
    omega
  rw [rest?, if_neg hend, if_neg (by omega), if_pos hbegin]

/-- **One character further** the text ahead has lost its first character. -/
theorem rest?_advance_one {c : Cursor} {x : Char} {t : Text} (h : c.rest? = some (x :: t)) :
    Index.get? c.line c.place = some x ∧ (c.advance 1).rest? = some t := by
  by_cases hpos : 0 ≤ c.place
  · rw [rest?_of_nonneg hpos, Option.some_inj] at h
    have hget : Index.get? c.line c.place = c.line[c.place.toNat]? := by
      refine get?_eq ?_
      rw [Index.fromStart, if_neg (by omega), Int.toNat_of_nonneg hpos]
    have hnext : (c.advance 1).rest? = some (c.line.drop (c.place.toNat + 1)) := by
      have hadvance : 0 ≤ (c.advance 1).place := by
        simp only [advance]
        omega
      rw [rest?_of_nonneg hadvance]
      simp only [advance]
      congr 2
      omega
    rw [hget, hnext, ← List.head?_drop, ← List.tail_drop, h]
    exact ⟨rfl, rfl⟩
  · have hbegin : -c.line.length ≤ c.place := by
      have hsome : ¬ c.place < -c.line.length := by
        rw [← rest?_eq_none_iff, h]
        simp
      omega
    rw [rest?_of_neg (by omega) hbegin, Option.some_inj] at h
    obtain ⟨k, hk⟩ := Int.eq_ofNat_of_zero_le (show 0 ≤ c.place + c.line.length by omega)
    have hlt : k < c.line.length := by omega
    rw [hk, Int.toNat_natCast, List.drop_eq_getElem_cons hlt, List.cons_append] at h
    obtain ⟨rfl, rfl⟩ := List.cons.inj h
    have hget : Index.get? c.line c.place = c.line[k]? := by
      refine get?_eq ?_
      rw [Index.fromStart, if_pos (by omega), hk]
    refine ⟨by rw [hget, List.getElem?_eq_getElem hlt], ?_⟩
    by_cases hzero : c.place = -1
    · have hk : k + 1 = c.line.length := by omega
      have hadvance : c.advance 1 = ⟨c.line, 0, c.spanStart⟩ := by simp [advance, hzero]
      rw [hadvance, hk, List.drop_length, List.nil_append]
      exact rest?_of_nonneg (Int.le_refl 0)
    · have hline : (c.advance 1).line = c.line := rfl
      have hplace : (c.advance 1).place = c.place + 1 := rfl
      rw [rest?_of_neg (by omega) (by rw [hline]; omega), hline, hplace]
      congr 3
      omega

/-- **What is ahead** of a cursor that is not behind the end. -/
structure Ahead (c : Cursor) (t : Text) : Prop where
  rest : c.rest? = some t
  within : c.place ≤ c.line.length

/-- Ahead is everything up to the end, with the whole line once more when the place is counted
from the end. -/
theorem Ahead.place_add {c : Cursor} {t : Text} (h : Ahead c t) :
    c.place + t.length = c.line.length := by
  have hwithin := h.within
  by_cases hpos : 0 ≤ c.place
  · have hrest := h.rest
    rw [rest?_of_nonneg hpos, Option.some_inj] at hrest
    rw [← hrest, List.length_drop]
    omega
  · have hbegin : ¬ c.place < -c.line.length := by
      rw [← rest?_eq_none_iff, h.rest]
      simp
    have hrest := h.rest
    rw [rest?_of_neg (by omega) (by omega), Option.some_inj] at hrest
    rw [← hrest, List.length_append, List.length_drop]
    omega

theorem exists_ahead {c : Cursor} (hbegin : -c.line.length ≤ c.place)
    (hwithin : c.place ≤ c.line.length) : ∃ t, Ahead c t := by
  cases h : c.rest? with
  | none =>
    rw [rest?_eq_none_iff] at h
    omega
  | some t => exact ⟨t, h, hwithin⟩

theorem Ahead.atEnd_nil {c : Cursor} (h : Ahead c []) : c.atEnd = true := by
  have hplace := h.place_add
  rw [atEnd_iff]
  simp only [List.length_nil] at hplace
  omega

theorem Ahead.atEnd_cons {c : Cursor} {x : Char} {t : Text} (h : Ahead c (x :: t)) :
    c.atEnd = false := by
  have hplace := h.place_add
  rw [← Bool.not_eq_true, atEnd_iff]
  simp only [List.length_cons] at hplace
  omega

theorem Ahead.get? {c : Cursor} {x : Char} {t : Text} (h : Ahead c (x :: t)) :
    Index.get? c.line c.place = some x := (rest?_advance_one h.rest).1

theorem Ahead.next {c : Cursor} {x : Char} {t : Text} (h : Ahead c (x :: t)) :
    Ahead (c.advance 1) t := by
  have hplace := h.place_add
  refine ⟨(rest?_advance_one h.rest).2, ?_⟩
  simp only [advance, List.length_cons] at hplace ⊢
  omega

theorem advance_zero (c : Cursor) : c.advance 0 = c := by simp [advance]

theorem advance_add (c : Cursor) (n k : Nat) : (c.advance n).advance k = c.advance (n + k) := by
  simp [advance, Int.add_assoc]

theorem Ahead.advance {c : Cursor} {t : Text} {n : Nat} (h : Ahead c t) (hn : n ≤ t.length) :
    Ahead (c.advance n) (t.drop n) := by
  induction n generalizing c t with
  | zero => rwa [advance_zero]
  | succ n ih =>
    cases t with
    | nil => exact absurd hn (Nat.not_succ_le_zero n)
    | cons x t =>
      rw [Nat.add_comm, ← advance_add, Nat.add_comm, List.drop_succ_cons]
      exact ih h.next (Nat.le_of_succ_le_succ hn)

theorem Ahead.toEnd_eq {c : Cursor} {t : Text} (h : Ahead c t) : c.toEnd = c.advance t.length := by
  rw [toEnd, Cursor.advance, h.place_add]

theorem left_advance_lt {c : Cursor} (h : ¬ c.atEnd = true) :
    ((c.advance 1).line.length - (c.advance 1).place).toNat < (c.line.length - c.place).toNat := by
  rw [atEnd_iff] at h
  simp only [advance]
  omega

/-! ### Readings of the text ahead -/

variable {rules : Rules}

theorem read?_outside {c : Cursor} {x : Char} {t : Text} (h : Ahead c (x :: t)) :
    let lexeme := Lexeme.read rules.lenient x t
    c.read? rules [] = some (if lexeme.kind = .word then
      ⟨wordStyle rules (Index.slice c.line c.place (c.place + lexeme.length)), lexeme.length, []⟩
      else lexeme.reading rules x t) := by
  rw [read?, h.rest]
  rfl

theorem read?_inside {c : Cursor} {t : Text} (h : Ahead c t) (a : Literal) (outer : Stack) :
    c.read? rules (a :: outer) = some (readNext rules (a :: outer) t) := by
  rw [read?, h.rest]
  rfl

theorem read?_atEnd (rules : Rules) {c : Cursor} (h : c.atEnd = true) (stack : Stack) :
    c.read? rules stack = some ⟨none, 0, stack⟩ := by
  rw [read?, rest?, if_pos h, Option.map_some]
  cases stack <;> rfl

theorem Ahead.bounds {c : Cursor} {x : Char} {t : Text} (h : Ahead c (x :: t)) (rules : Rules)
    (stack : Stack) :
    ∃ reading, c.read? rules stack = some reading ∧ 0 < reading.length ∧
      reading.length ≤ (x :: t).length := by
  cases stack with
  | nil =>
    refine ⟨_, read?_outside h, ?_⟩
    split
    · exact ⟨Lexeme.length_read_pos _ x t, Lexeme.length_read_le _ x t⟩
    · exact ⟨length_readLexeme_pos rules x t, length_readLexeme_le rules x t⟩
  | cons a outer =>
    exact ⟨_, read?_inside h a outer, length_readNext_pos rules _ (List.cons_ne_nil x t),
      length_readNext_le rules _ _⟩

end ChipHighlight.Cursor
