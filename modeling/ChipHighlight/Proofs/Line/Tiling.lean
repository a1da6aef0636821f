import Mathlib.Data.List.Chain
import ChipHighlight.Proofs.Cursor.Reads
import ChipHighlight.Proofs.Text.LineEnds

/-!
# Tokens tile the line

With the gaps kept no character of a line is lost: the tokens stand side by side from
the first character to the last (`Token.Tile`), whatever was open in front of the line.
A tile of tokens grows at its left end, one span after the other (`Tile.cons`), so it
is enough that the spans cover the line and that none of them is empty.

A token knows its line.  So the text of each line is found among the tokens of a whole
document (`textOn_rows`), and the lines joined with feeds are the document with plain
ends.
-/

namespace ChipHighlight

namespace Token

/-- **Tokens that tile a text**, side by side, where the text stands at an offset of its
line. -/
structure Tile (offset : Nat) (t : Text) (tokens : List Token) : Prop where
  ne_nil : ∀ token ∈ tokens, token.text ≠ []
  texts : tokens.flatMap Token.text = t
  first : ∀ token ∈ tokens.head?, token.start = offset
  adjacent : tokens.IsChain fun a b => b.start = a.stop
  stop_eq : ∀ token ∈ tokens, token.stop = token.start + token.text.length
  column_eq : ∀ token ∈ tokens, token.column = token.start + 1
  last : ∀ token ∈ tokens.getLast?, token.stop = offset + t.length

namespace Tile

theorem nil (offset : Nat) : Tile offset [] [] where
  ne_nil := nofun
  texts := rfl
  first := nofun
  adjacent := .nil
  stop_eq := nofun
  column_eq := nofun
  last := nofun

theorem cons {number : Int} {offset : Nat} {span : Span} {t : Text} {tokens : List Token}
    (hne : span.text ≠ []) (h : Tile (offset + span.text.length) t tokens) :
    Tile offset (span.text ++ t) (span.token number offset :: tokens) where
  ne_nil := List.forall_mem_cons.mpr ⟨hne, h.ne_nil⟩
  texts := by rw [List.flatMap_cons, h.texts]; rfl
  first := by
    rintro token ⟨⟩
    rfl
  adjacent := by
    cases tokens with
    | nil => exact .singleton _
    | cons next rest =>
      refine .cons_cons ?_ h.adjacent
      rw [h.first next rfl]
      exact Int.natCast_add _ _
  stop_eq := List.forall_mem_cons.mpr ⟨rfl, h.stop_eq⟩
  column_eq := List.forall_mem_cons.mpr ⟨rfl, h.column_eq⟩
  last := by
    intro token htoken
    rw [List.length_append]
    cases tokens with
    | nil =>
      have ht : t = [] := h.texts.symm
      obtain rfl : span.token number offset = token := by simpa using htoken
      rw [ht, List.length_nil]
      rfl
    | cons next rest =>
      rw [List.getLast?_cons_cons] at htoken
      rw [h.last token htoken]
      omega

end Tile

theorem tile_place (number : Int) (offset : Nat) {spans : List Span}
    (h : ∀ span ∈ spans, span.text ≠ []) :
    Tile offset (spans.flatMap Span.text) (Span.place number offset spans) := by
  induction spans generalizing offset with
  | nil => exact .nil offset
  | cons span rest ih =>
    obtain ⟨hne, hrest⟩ := List.forall_mem_cons.mp h
    rw [Span.place, if_neg (by simpa using hne), List.flatMap_cons]
    exact (ih (offset + span.text.length) hrest).cons hne

/-! ### Where a token stands -/

theorem line_of_mem_place {number : Int} {offset : Nat} {spans : List Span} {token : Token}
    (h : token ∈ Span.place number offset spans) : token.line = number := by
  induction spans generalizing offset with
  | nil => exact absurd h List.not_mem_nil
  | cons span rest ih =>
    rw [Span.place] at h
    split at h
    · exact ih h
    · rcases List.mem_cons.mp h with rfl | h
      · rfl
      · exact ih h

def textOn (number : Int) (tokens : List Token) : Text :=
  (tokens.filter fun token => token.line == number).flatMap Token.text

theorem textOn_append (number : Int) (tokens more : List Token) :
    textOn number (tokens ++ more) = textOn number tokens ++ textOn number more := by
  rw [textOn, List.filter_append, List.flatMap_append]
  rfl

theorem textOn_of_forall_eq {number : Int} {tokens : List Token}
    (h : ∀ token ∈ tokens, token.line = number) :
    textOn number tokens = tokens.flatMap Token.text := by
  rw [textOn, List.filter_eq_self.mpr fun token htoken => beq_iff_eq.mpr (h token htoken)]

theorem textOn_of_forall_ne {number : Int} {tokens : List Token}
    (h : ∀ token ∈ tokens, token.line ≠ number) : textOn number tokens = [] := by
  rw [textOn, List.filter_eq_nil_iff.mpr fun token htoken => by simpa using h token htoken]
  rfl

end Token

open Token (Tile textOn)

/-! ### Lines with their gaps -/

theorem tokens_row_keepGaps (rules : Rules) (number : Int) (stack : Stack) (line : Text) :
    (Mode.blip.row rules true number stack line).tokens =
      Span.place number 0 (lineSpans rules stack line) := by
  rw [Mode.row, Row.ofSpans]
  exact List.filter_eq_self.mpr fun _ _ => rfl

theorem tile_row (rules : Rules) (number : Int) (stack : Stack) (line : Text) :
    Tile 0 line (Mode.blip.row rules true number stack line).tokens := by
  have h := Token.tile_place number 0 (@text_ne_nil_of_mem_lineSpans rules stack line)
  rwa [flatMap_text_lineSpans, ← tokens_row_keepGaps] at h

theorem line_of_mem_row {rules : Rules} {number : Int} {stack : Stack} {line : Text}
    {token : Token} (h : token ∈ (Mode.blip.row rules true number stack line).tokens) :
    token.line = number := by
  rw [tokens_row_keepGaps] at h
  exact Token.line_of_mem_place h

theorem le_line_of_mem_rows {rules : Rules} {number : Int} {stack : Stack} {lines : List Text}
    {token : Token}
    (h : token ∈ (Mode.blip.rows rules true number stack lines).flatMap Row.tokens) :
    number ≤ token.line := by
  induction lines generalizing number stack with
  | nil => exact absurd h List.not_mem_nil
  | cons line lines ih =>
    rw [Mode.rows, List.flatMap_cons, List.mem_append] at h
    rcases h with h | h
    · exact Int.le_of_eq (line_of_mem_row h).symm
    · have := ih h
      omega

theorem flatMap_text_rows (rules : Rules) (number : Int) (stack : Stack) (lines : List Text) :
    ((Mode.blip.rows rules true number stack lines).flatMap Row.tokens).flatMap Token.text =
      lines.flatten := by
  induction lines generalizing number stack with
  | nil => rfl
  | cons line lines ih =>
    rw [Mode.rows, List.flatMap_cons, List.flatMap_append, (tile_row rules number stack line).texts,
      ih, List.flatten_cons]

/-- **The text of each line is found among the tokens of all.** -/
theorem textOn_rows (rules : Rules) (number : Int) (stack : Stack) (lines : List Text) :
    ((List.range lines.length).map fun i : Nat => textOn (number + i)
      ((Mode.blip.rows rules true number stack lines).flatMap Row.tokens)) = lines := by
  induction lines generalizing number stack with
  | nil => rfl
  | cons line lines ih =>
    let row := Mode.blip.row rules true number stack line
    let others := (Mode.blip.rows rules true (number + 1) row.stack lines).flatMap Row.tokens
    have hrows : (Mode.blip.rows rules true number stack (line :: lines)).flatMap Row.tokens =
        row.tokens ++ others := rfl
    have hline : ∀ token ∈ row.tokens, token.line = number := fun token h => line_of_mem_row h
    have hothers : ∀ token ∈ others, number + 1 ≤ token.line :=
      fun token h => le_line_of_mem_rows h
    have hfirst : textOn (number + (0 : Nat)) (row.tokens ++ others) = line := by
      rw [Int.natCast_zero, Int.add_zero, Token.textOn_append, Token.textOn_of_forall_eq hline,
        (tile_row rules number stack line).texts, Token.textOn_of_forall_ne, List.append_nil]
      intro token h
      have := hothers token h
      omega
    have hnext : ∀ i : Nat, textOn (number + (i + 1 : Nat)) (row.tokens ++ others) =
        textOn (number + 1 + i) others := by
      intro i
      have hnumber : number + (i + 1 : Nat) = number + 1 + i := by omega
      rw [hnumber, Token.textOn_append, Token.textOn_of_forall_ne, List.nil_append]
      intro token h
      have := hline token h
      omega
    rw [List.length_cons, List.range_succ_eq_map, List.map_cons, List.map_map, hrows, hfirst]
    congr 1
    exact (List.map_congr_left fun i _ => hnext i).trans (ih (number + 1) row.stack)

/-! ### Nothing is lost -/

/-- **Reading loses nothing.**  On any line, whatever is open in front of it, the cursor
gets to the end, never without taking something, and the tokens tile the line; and
from the tokens of a document its text comes back, with plain line ends. -/
theorem transcribe_lossless (rules : Rules) :
    (∀ (number : Int) (stack : Stack) (line : Text),
      let spans := Mode.blip.spans rules stack [] line
      let tokens := (Mode.blip.transcribeLine rules true number stack line).tokens
      Cursor.Reads rules (.ofLine line) stack spans ∧ (∀ span ∈ spans, span.text ≠ []) ∧
        tokens = Span.place number 0 spans ∧ Tile 0 line tokens ∧ (tokens = [] ↔ line = [])) ∧
    ∀ source : Text,
      let tokens := (Mode.blip.transcribeSource rules true source).tokens
      Text.join ['\n'] ((List.range (linesOf source).length).map fun i : Nat =>
        textOn (i + 1) tokens) = plainEnds source := by
  constructor
  · intro number stack line spans tokens
    have htokens : tokens = (Mode.blip.row rules true number stack line).tokens :=
      List.append_nil _
    have htile : Tile 0 line tokens := htokens ▸ tile_row rules number stack line
    refine ⟨Cursor.reads_ofLine rules stack line, text_ne_nil_of_mem_lineSpans stack line, ?_,
      htile, ?_⟩
    · rw [htokens, tokens_row_keepGaps]
      rfl
    · constructor
      · intro hnil
        rw [← htile.texts, hnil, List.flatMap_nil]
      · intro hnil
        rw [htokens, tokens_row_keepGaps, hnil, lineSpans_nil]
        rfl
  · intro source tokens
    have hlines : ((List.range (linesOf source).length).map fun i : Nat => textOn (i + 1) tokens) =
        linesOf source := by
      refine Eq.trans (List.map_congr_left fun i _ => ?_) (textOn_rows rules 1 [] (linesOf source))
      rw [Int.add_comm]
      rfl
    rw [hlines, join_linesOf]

end ChipHighlight
