import ChipHighlight.Highlighter
import ChipHighlight.Proofs.Line.Rows

/-!
# Reading again and stopping early

`Mode.rescan` reads lines until the old rows can be kept.  `rescan_cases` says all it
can do: it reads the first `n` lines, at no earlier point could the old rows be kept,
and either nothing is left or they can be kept now.

The old rows can be kept in front of `r` lines (`keptAfter?_eq_some_iff`) when both
documents end in these `r` lines (`le_sharedEnd_iff`) and the old row in front of them
left what is open now.  If the old rows are those of a full scan, the rows of the rest
are then the old ones, moved (`map_moveDown_rows`), so whatever `n` is, reading again
gives what a full scan of the lines gives (`rows_rescan`).
-/

namespace ChipHighlight

/-! ### Further down -/

theorem place_moveDown (k number : Int) (offset : Nat) (spans : List Span) :
    (Span.place number offset spans).map (Token.moveDown k) =
      Span.place (number + k) offset spans := by
  induction spans generalizing offset with
  | nil => rfl
  | cons span rest ih =>
    rw [Span.place, Span.place]
    split
    · exact ih offset
    · rw [List.map_cons, ih]
      rfl

theorem moveDown_row (mode : Mode) (rules : Rules) (keepGaps : Bool) (k number : Int)
    (stack : Stack) (line : Text) :
    (mode.row rules keepGaps number stack line).moveDown k =
      mode.row rules keepGaps (number + k) stack line := by
  rw [Mode.row, Mode.row, Row.ofSpans, Row.ofSpans, Row.moveDown, ← place_moveDown,
    List.filter_map]
  rfl

/-- **The same lines further down have the same rows, moved.** -/
theorem map_moveDown_rows (mode : Mode) (rules : Rules) (keepGaps : Bool) (k number : Int)
    (stack : Stack) (lines : List Text) :
    (mode.rows rules keepGaps number stack lines).map (Row.moveDown k) =
      mode.rows rules keepGaps (number + k) stack lines := by
  induction lines generalizing number stack with
  | nil => rfl
  | cons line lines ih =>
    rw [Mode.rows_cons, List.map_cons, moveDown_row, ih, Mode.rows_cons]
    congr 2
    omega

/-! ### Where two documents end alike -/

theorem le_sharedStart_iff {a b : List Text} {r : Nat} :
    r ≤ sharedStart a b ↔ r ≤ a.length ∧ r ≤ b.length ∧ a.take r = b.take r := by
  induction a generalizing b r with
  | nil => cases r <;> simp [sharedStart]
  | cons x a ih =>
    cases b with
    | nil => cases r <;> simp [sharedStart]
    | cons y b =>
      cases r with
      | zero => simp
      | succ r =>
        rw [sharedStart]
        split
        · rename_i hxy
          rw [Nat.succ_le_succ_iff, ih, hxy]
          simp
        · rename_i hxy
          simp [hxy]

/-- **The number of shared last lines** bounds the common ends, and nothing else does. -/
theorem le_sharedEnd_iff {old new : List Text} {r : Nat} :
    r ≤ sharedEnd old new ↔ r ≤ old.length ∧ r ≤ new.length ∧
      old.drop (old.length - r) = new.drop (new.length - r) := by
  rw [sharedEnd, le_sharedStart_iff, List.length_reverse, List.length_reverse,
    List.take_reverse, List.take_reverse, List.reverse_inj]

/-! ### When the old rows can be kept -/

theorem keptAfter?_eq_some_iff {old kept : List Row} {shared r : Nat} {stack : Stack} :
    keptAfter? old shared r stack = some kept ↔
      0 < r ∧ r ≤ shared ∧ r < old.length ∧
        (old[old.length - r - 1]?).map Row.stack = some stack ∧
        kept = old.drop (old.length - r) := by
  unfold keptAfter?
  split
  · rename_i h
    obtain ⟨hr, hshared, hlt⟩ := h
    have hi : old.length - r - 1 < old.length := by omega
    have hnext : old.length - r - 1 + 1 = old.length - r := by omega
    rw [List.drop_eq_getElem_cons hi, hnext, List.getElem?_eq_getElem hi, Option.map_some,
      Option.some_inj]
    dsimp only
    split
    · rename_i hs
      simp [hr, hshared, hlt, hs, eq_comm]
    · rename_i hs
      simp [hs]
  · rename_i h
    simp only [reduceCtorEq, false_iff]
    rintro ⟨hr, hshared, hlt, -⟩
    exact h ⟨hr, hshared, hlt⟩

@[simp] theorem keptAfter?_nil (shared r : Nat) (stack : Stack) :
    keptAfter? [] shared r stack = none := by
  simp [keptAfter?]

/-! ### All that reading again can do -/

section Rescan

variable (mode : Mode) (rules : Rules) (old : List Row) (shared : Nat) (shift : Int)

/-- Whether the old rows can be kept behind the first `n` of some lines that are read
from `stack` on. -/
def Mode.keepsBehind (stack : Stack) (lines : List Text) (n : Nat) : Option (List Row) :=
  keptAfter? old shared (lines.length - n) (mode.carry rules stack (lines.take n))

/-- **All that reading again can do.** -/
theorem rescan_cases (number : Int) (stack : Stack) (lines : List Text) :
    ((∀ n, 0 < n → n < lines.length →
        mode.keepsBehind rules old shared stack lines n = none) ∧
      mode.rescan rules old shared shift number stack lines =
        ⟨mode.rows rules false number stack lines, lines.length,
          Row.endings number lines (mode.rows rules false number stack lines)⟩) ∨
    ∃ n kept, 0 < n ∧ n < lines.length ∧
      (∀ m, 0 < m → m < n → mode.keepsBehind rules old shared stack lines m = none) ∧
      mode.keepsBehind rules old shared stack lines n = some kept ∧
      mode.rescan rules old shared shift number stack lines =
        ⟨mode.rows rules false number stack (lines.take n) ++ kept.map (Row.moveDown shift), n,
          Row.endings number (lines.take n) (mode.rows rules false number stack (lines.take n)) ++
            [.converged (number + n)]⟩ := by
  induction lines generalizing number stack with
  | nil => exact Or.inl ⟨fun n _ h => absurd h (Nat.not_lt_zero n), rfl⟩
  | cons line rest ih =>
    have hone : mode.keepsBehind rules old shared stack (line :: rest) 1 =
        keptAfter? old shared rest.length (mode.row rules false number stack line).stack := rfl
    have hsucc : ∀ n, mode.keepsBehind rules old shared stack (line :: rest) (n + 1) =
        mode.keepsBehind rules old shared (mode.row rules false number stack line).stack rest n := by
      intro n
      rw [Mode.keepsBehind, Mode.keepsBehind, List.length_cons, Nat.add_sub_add_right,
        List.take_succ_cons, Mode.carry_cons]
      rfl
    cases hkept : keptAfter? old shared rest.length (mode.row rules false number stack line).stack with
    | some kept =>
      have hpos : 0 < rest.length := (keptAfter?_eq_some_iff.mp hkept).1
      refine Or.inr ⟨1, kept, Nat.one_pos, by rw [List.length_cons]; omega, ?_, ?_, ?_⟩
      · intro m _ hm
        omega
      · rw [hone, hkept]
      · rw [Mode.rescan, hkept]
        rfl
    | none =>
      -- nothing can be kept behind this line, so the point moves on by one
      rcases ih (number + 1) (mode.row rules false number stack line).stack with
        ⟨hnone, heq⟩ | ⟨n, kept, hn, hlt, hnone, hsome, heq⟩
      · refine Or.inl ⟨?_, ?_⟩
        · intro m hm hlt
          obtain _ | _ | m := m
          · omega
          · rw [hone, hkept]
          · rw [hsucc]
            exact hnone (m + 1) (Nat.succ_pos m) (by rw [List.length_cons] at hlt; omega)
        · rw [Mode.rescan, hkept]
          dsimp only
          rw [heq]
          rfl
      · refine Or.inr ⟨n + 1, kept, Nat.succ_pos n, by rw [List.length_cons]; omega, ?_, ?_, ?_⟩
        · intro m hm hlt
          obtain _ | _ | m := m
          · omega
          · rw [hone, hkept]
          · rw [hsucc]
            exact hnone (m + 1) (Nat.succ_pos m) (by omega)
        · rw [hsucc, hsome]
        · have hnumber : number + 1 + (n : Int) = number + (n + 1 : Nat) := by omega
          rw [Mode.rescan, hkept]
          dsimp only
          rw [heq, hnumber]
          rfl

end Rescan

/-! ### Old rows of a full scan -/

theorem stack_in_front {mode : Mode} {rules : Rules} {number : Int} {stack : Stack}
    {lines : List Text} {r : Nat} (h : r < lines.length) :
    ((mode.rows rules false number stack lines)[lines.length - r - 1]?).map Row.stack =
      some (mode.carry rules stack (lines.take (lines.length - r))) := by
  have hi : lines.length - r - 1 < lines.length := by omega
  have hnext : lines.length - r = lines.length - r - 1 + 1 := by omega
  rw [Mode.rows_getElem? mode rules false number stack lines hi, Option.map_some, Mode.stack_row,
    ← Mode.carry_take_succ mode rules stack hi, ← hnext]

/-- **Reading again comes to a full scan.**  The old rows are those of a full scan of
the old lines, and the lines from `start` on are read again. -/
theorem rows_rescan (mode : Mode) (rules : Rules) (old lines : List Text) (start : Nat) :
    (mode.rescan rules (mode.rows rules false 1 mode.start old) (sharedEnd old lines)
        (lines.length - old.length) (start + 1) (mode.carry rules mode.start (lines.take start))
        (lines.drop start)).rows =
      mode.rows rules false (start + 1) (mode.carry rules mode.start (lines.take start))
        (lines.drop start) := by
  rcases rescan_cases mode rules (mode.rows rules false 1 mode.start old) (sharedEnd old lines)
      (lines.length - old.length) (start + 1) (mode.carry rules mode.start (lines.take start))
      (lines.drop start) with ⟨-, heq⟩ | ⟨n, kept, -, hlt, -, hsome, heq⟩
  · rw [heq]
  · rw [List.length_drop] at hlt
    rw [Mode.keepsBehind, keptAfter?_eq_some_iff, Mode.length_rows, List.length_drop] at hsome
    obtain ⟨hpos, hshared, hlen, hstack, hkept⟩ := hsome
    obtain ⟨-, -, hend⟩ := le_sharedEnd_iff.mp hshared
    -- both documents go on with the lines from `start + n` on, and from one stack
    have hleft : lines.length - (lines.length - start - n) = start + n := by omega
    rw [stack_in_front hlen, Option.some_inj] at hstack
    rw [hleft, ← List.drop_drop] at hend
    have hnumber : (1 : Int) + (old.length - (lines.length - start - n) : Nat) +
        (lines.length - old.length) = start + 1 + ((lines.drop start).take n).length := by
      rw [List.length_take, List.length_drop]
      omega
    rw [heq, hkept, Mode.drop_rows, map_moveDown_rows, hstack, hend, hnumber, ← Mode.rows_split]

end ChipHighlight
