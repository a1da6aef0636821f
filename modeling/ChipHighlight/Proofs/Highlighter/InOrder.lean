import ChipHighlight.Proofs.Highlighter.UpToDate
import ChipHighlight.Proofs.Line.Paint

/-!
# Rows in order

Whatever a host says about an edit, true or not, a highlighter keeps one row for each
line, and the tokens of a row stand on its line, one behind the other
(`Highlighter.WellFormed`).  Nothing of this depends on the rows being right.

Rows that are read are in order from the number of their first line on, by construction.
Rows that are kept are moved by the difference of the two lengths, counted from the end
of the document, so they arrive where they stand now:

    number + lines.length = 1 + old.length + shift    (`numbered_rescan`).
-/

namespace ChipHighlight

/-! ### Tokens of one line -/

namespace Token

/-- **Tokens in order on a line**, which do not overlap and are not empty. -/
structure InOrder (number : Int) (tokens : List Token) : Prop where
  line_eq : ∀ token ∈ tokens, token.line = number
  ne_nil : ∀ token ∈ tokens, token.text ≠ []
  stop_eq : ∀ token ∈ tokens, token.stop = token.start + token.text.length
  column_eq : ∀ token ∈ tokens, token.column = token.start + 1
  apart : tokens.Pairwise fun a b => a.stop ≤ b.start

/-- A token stands before another: on a line further up, or further left. -/
def Before (a b : Token) : Prop := a.line < b.line ∨ a.line = b.line ∧ a.start < b.start

namespace InOrder

variable {number : Int} {tokens more : List Token}

theorem sublist (h : InOrder number tokens) (hs : more.Sublist tokens) : InOrder number more where
  line_eq token htoken := h.line_eq token (hs.mem htoken)
  ne_nil token htoken := h.ne_nil token (hs.mem htoken)
  stop_eq token htoken := h.stop_eq token (hs.mem htoken)
  column_eq token htoken := h.column_eq token (hs.mem htoken)
  apart := h.apart.sublist hs

theorem moveDown (h : InOrder number tokens) (k : Int) :
    InOrder (number + k) (tokens.map (Token.moveDown k)) where
  line_eq := List.forall_mem_map.mpr fun token htoken =>
    congrArg (· + k) (h.line_eq token htoken)
  ne_nil := List.forall_mem_map.mpr h.ne_nil
  stop_eq := List.forall_mem_map.mpr h.stop_eq
  column_eq := List.forall_mem_map.mpr h.column_eq
  apart := List.pairwise_map.mpr h.apart

theorem pairwise_before (h : InOrder number tokens) : tokens.Pairwise Before := by
  refine h.apart.imp_of_mem fun {a b} ha hb hab => ?_
  have hpos := List.length_pos_iff.mpr (h.ne_nil a ha)
  have hstop := h.stop_eq a ha
  refine Or.inr ⟨(h.line_eq a ha).trans (h.line_eq b hb).symm, ?_⟩
  omega

end InOrder

theorem inOrder_place (number : Int) (offset : Nat) (spans : List Span) :
    InOrder number (Span.place number offset spans) := by
  induction spans generalizing offset with
  | nil => exact ⟨nofun, nofun, nofun, nofun, .nil⟩
  | cons span rest ih =>
    rw [Span.place]
    split
    · exact ih offset
    · rename_i hne
      have h := ih (offset + span.text.length)
      refine ⟨List.forall_mem_cons.mpr ⟨rfl, h.line_eq⟩,
        List.forall_mem_cons.mpr ⟨by simpa [Span.token] using hne, h.ne_nil⟩,
        List.forall_mem_cons.mpr ⟨rfl, h.stop_eq⟩,
        List.forall_mem_cons.mpr ⟨rfl, h.column_eq⟩, .cons ?_ h.apart⟩
      intro next hnext
      exact Span.offset_le_start hnext

end Token

open Token (InOrder)

/-! ### Rows of consecutive lines -/

namespace Row

/-- **Rows in order**, of which the first stands on the given line. -/
def Numbered (number : Int) (rows : List Row) : Prop :=
  ∀ (i : Nat) (row : Row), rows[i]? = some row → InOrder (number + i) row.tokens

namespace Numbered

variable {number : Int} {rows more : List Row}

theorem take (h : Numbered number rows) (n : Nat) : Numbered number (rows.take n) := by
  intro i row hrow
  rw [List.getElem?_take] at hrow
  split at hrow
  · exact h i row hrow
  · cases hrow

theorem drop (h : Numbered number rows) (n : Nat) : Numbered (number + n) (rows.drop n) := by
  intro i row hrow
  rw [List.getElem?_drop] at hrow
  have hi := h (n + i) row hrow
  rwa [Int.natCast_add, ← Int.add_assoc] at hi

theorem append (h : Numbered number rows) (hmore : Numbered (number + rows.length) more) :
    Numbered number (rows ++ more) := by
  intro i row hrow
  by_cases hi : i < rows.length
  · rw [List.getElem?_append_left hi] at hrow
    exact h i row hrow
  · rw [List.getElem?_append_right (Nat.le_of_not_lt hi)] at hrow
    have hnumber : number + rows.length + (i - rows.length : Nat) = number + i := by omega
    exact hnumber ▸ hmore (i - rows.length) row hrow

theorem moveDown (h : Numbered number rows) (k : Int) :
    Numbered (number + k) (rows.map (Row.moveDown k)) := by
  intro i row hrow
  rw [List.getElem?_map] at hrow
  obtain ⟨kept, hkept, rfl⟩ := Option.map_eq_some_iff.mp hrow
  have hi := (h i kept hkept).moveDown k
  rwa [Int.add_right_comm] at hi

theorem pairwise_before (h : Numbered number rows) :
    (rows.flatMap Row.tokens).Pairwise Token.Before := by
  rw [List.pairwise_flatMap]
  constructor
  · intro row hrow
    obtain ⟨i, hi⟩ := List.mem_iff_getElem?.mp hrow
    exact (h i row hi).pairwise_before
  · rw [List.pairwise_iff_getElem]
    intro i j hi hj hij a ha b hb
    have hline_a := (h i rows[i] (List.getElem?_eq_getElem hi)).line_eq a ha
    have hline_b := (h j rows[j] (List.getElem?_eq_getElem hj)).line_eq b hb
    exact Or.inl (by omega)

end Numbered

end Row

open Row (Numbered)

theorem numbered_rows (mode : Mode) (rules : Rules) (keepGaps : Bool) (number : Int)
    (stack : Stack) (lines : List Text) :
    Numbered number (mode.rows rules keepGaps number stack lines) := by
  intro i row hrow
  have hi : i < lines.length := by
    obtain ⟨hlt, -⟩ := List.getElem?_eq_some_iff.mp hrow
    rwa [Mode.length_rows] at hlt
  rw [Mode.rows_getElem? mode rules keepGaps number stack lines hi, Option.some_inj] at hrow
  rw [← hrow]
  exact (Token.inOrder_place (number + i) 0 _).sublist List.filter_sublist

/-! ### Reading again -/

section Rescan

variable {mode : Mode} {rules : Rules} {old : List Row} {shared : Nat} {shift number : Int}
  {stack : Stack} {lines : List Text}

/-- **Reading again gives one row for each line**, and reads no line twice. -/
theorem length_rescan :
    (mode.rescan rules old shared shift number stack lines).rows.length = lines.length ∧
      (mode.rescan rules old shared shift number stack lines).scanned ≤ lines.length := by
  rcases rescan_cases mode rules old shared shift number stack lines with
    ⟨-, heq⟩ | ⟨n, kept, -, hlt, -, hsome, heq⟩
  · rw [heq]
    exact ⟨Mode.length_rows .., Nat.le_refl _⟩
  · obtain ⟨-, -, hrows, -, hkept⟩ := keptAfter?_eq_some_iff.mp hsome
    rw [heq, List.length_append, Mode.length_rows, List.length_take, List.length_map, hkept,
      List.length_drop]
    exact ⟨by omega, by dsimp only; omega⟩

/-- **Rows that are kept arrive on their lines**, if they are moved by the difference of
the two lengths. -/
theorem numbered_rescan (hold : Numbered 1 old)
    (hshift : number + lines.length = 1 + old.length + shift) :
    Numbered number (mode.rescan rules old shared shift number stack lines).rows := by
  rcases rescan_cases mode rules old shared shift number stack lines with
    ⟨-, heq⟩ | ⟨n, kept, -, hlt, -, hsome, heq⟩
  · rw [heq]
    exact numbered_rows mode rules false number stack lines
  · obtain ⟨-, -, hrows, -, hkept⟩ := keptAfter?_eq_some_iff.mp hsome
    have hmoved := (hold.drop (old.length - (lines.length - n))).moveDown shift
    have hnumber : (1 : Int) + (old.length - (lines.length - n) : Nat) + shift = number + n := by
      omega
    rw [heq, hkept]
    refine (numbered_rows mode rules false number stack (lines.take n)).append ?_
    rwa [Mode.length_rows, List.length_take_of_le (Nat.le_of_lt hlt), ← hnumber]

end Rescan

/-! ### Highlighters -/

namespace Highlighter

/-- **What is kept is well formed**: a row for each line, and the rows in order. -/
structure WellFormed (h : Highlighter) : Prop where
  length_eq : h.rows.length = h.lines.length
  numbered : Numbered 1 h.rows

theorem wellFormed_new (mode : Mode) : (new mode).WellFormed := ⟨rfl, nofun⟩

theorem WellFormed.refresh {h : Highlighter} (hw : h.WellFormed) (config : Config) :
    (h.refresh config).WellFormed := by
  cases hc : h.isCurrent config with
  | true => rwa [refresh_of_current hc]
  | false =>
    rw [refresh_of_not_current hc]
    exact ⟨rfl, nofun⟩

theorem WellFormed.startOf_le {h : Highlighter} (hw : h.WellFormed) (first : Int)
    (lines : List Text) : h.startOf first lines ≤ h.rows.length := by
  unfold startOf
  split
  · rename_i haccepts
    have := acceptsStart_iff.mp haccepts
    rw [hw.length_eq]
    omega
  · exact Nat.zero_le _

/-- **An update keeps it so**, whatever the host says about the edit. -/
theorem WellFormed.update {h : Highlighter} (hw : h.WellFormed) (config : Config)
    (lines : List Text) (first : Int) : (h.update config lines first).highlighter.WellFormed := by
  have hcurrent := hw.refresh config
  have hstart := hcurrent.startOf_le first lines
  have hle := startOf_le_length (h.refresh config) first lines
  have hfront : ((h.refresh config).rows.take ((h.refresh config).startOf first lines)).length =
      (h.refresh config).startOf first lines := List.length_take_of_le hstart
  constructor
  · rw [rows_update_eq_append, List.length_append, hfront, rescanFrom, length_rescan.1,
      List.length_drop, lines_update]
    omega
  · rw [rows_update_eq_append]
    refine (hcurrent.numbered.take _).append ?_
    rw [hfront, Int.add_comm]
    refine numbered_rescan hcurrent.numbered ?_
    rw [List.length_drop, hcurrent.length_eq]
    omega

theorem scanned_update_le (h : Highlighter) (config : Config) (lines : List Text) (first : Int) :
    (h.update config lines first).scanned ≤ lines.length := by
  rw [scanned_update, rescanFrom]
  refine Nat.le_trans length_rescan.2 ?_
  rw [List.length_drop]
  omega

end Highlighter

end ChipHighlight
