import ChipHighlight.Config.Basic
import ChipHighlight.Proofs.Line.Paint
import ChipHighlight.Proofs.Line.Rows
import ChipHighlight.Proofs.Line.Tiling
import ChipHighlight.Proofs.Reading.Lookahead

/-!
# Lines that are cut inside a literal

When something is open behind a text, the text can be read as a line of its own: what
follows it is read on from the stack it leaves, and every character is shown as in the
line that is not cut (`row_append_of_open`).

Readings that end before the cut do not see it, since they look one character ahead at
most.  The reading that ends at the cut has either just closed a literal, and then the next
one starts afresh in the line that is not cut too; or it stands in a literal, and there it
goes on (`Literal.read_append_cases`), with the one flag that the cut has to carry over.
-/

namespace ChipHighlight

/-! ### Readings behind which the text goes on -/

/-- **A literal in a text that goes on.**  It was closed in the text; or the text is read to
its end, the innermost literal then open is of the same style, and reading goes on in it. -/
theorem Literal.read_append_cases (a : Literal) (outer : Stack) (t b : Text) :
    a.read outer (t ++ b) = a.read outer t ∨
      ∃ inner rest, inner.style = a.style ∧ a.read outer t = ⟨t.length, inner :: rest⟩ ∧
        a.read outer (t ++ b) =
          ⟨t.length + (inner.read rest b).length, (inner.read rest b).stack⟩ := by
  induction t generalizing a outer with
  | nil =>
    refine Or.inr ⟨a, outer, rfl, rfl, ?_⟩
    rw [List.nil_append, List.length_nil, Nat.zero_add]
  | cons c t ih =>
    rw [List.cons_append, read_cons, read_cons]
    by_cases hcloses : a.closesAt c = true
    · rw [if_pos hcloses, if_pos hcloses]
      exact Or.inl rfl
    rw [if_neg hcloses, if_neg hcloses]
    -- one literal further in, or in the same one behind a character of its text
    have hfurther : ∀ (next : Literal) (around : Stack), next.style = a.style →
        (next.read around (t ++ b)).further = (next.read around t).further ∨
        ∃ inner rest, inner.style = a.style ∧
          (next.read around t).further = ⟨(c :: t).length, inner :: rest⟩ ∧
          (next.read around (t ++ b)).further =
            ⟨(c :: t).length + (inner.read rest b).length, (inner.read rest b).stack⟩ := by
      intro next around hnext
      rcases ih next around with hsame | ⟨inner, rest, hstyle, hread, hon⟩
      · exact Or.inl (congrArg Advance.further hsame)
      · refine Or.inr ⟨inner, rest, hstyle.trans hnext, congrArg Advance.further hread, ?_⟩
        rw [hon, Advance.further, List.length_cons, Nat.add_right_comm]
    by_cases hopens : a.opensAt c = true
    · rw [if_pos hopens, if_pos hopens]
      exact hfurther a.fresh (a :: outer) rfl
    · rw [if_neg hopens, if_neg hopens]
      exact hfurther (a.pass c) outer rfl

variable {rules : Rules}

theorem readNext_append_cases {stack : Stack} {t : Text} (ht : t ≠ [])
    (hopen : (readNext rules stack t).stack ≠ []) (b : Text) :
    readNext rules stack (t ++ b) = readNext rules stack t ∨
      ∃ inner rest, readNext rules stack t = ⟨inner.style, t.length, inner :: rest⟩ ∧
        readNext rules stack (t ++ b) =
          ⟨inner.style, t.length + (inner.read rest b).length, (inner.read rest b).stack⟩ := by
  cases t with
  | nil => exact absurd rfl ht
  | cons c t =>
    cases stack with
    | cons a outer =>
      rw [List.cons_append, ← List.cons_append]
      show Literal.reading a outer (c :: t ++ b) = Literal.reading a outer (c :: t) ∨
        ∃ inner rest, Literal.reading a outer (c :: t) = _ ∧
          Literal.reading a outer (c :: t ++ b) = _
      unfold Literal.reading
      rcases a.read_append_cases outer (c :: t) b with hsame | ⟨inner, rest, hstyle, hread, hon⟩
      · exact Or.inl (by rw [hsame])
      · exact Or.inr ⟨inner, rest, by rw [hread, hstyle], by rw [hon, hstyle]⟩
    | nil =>
      rw [readNext_base] at hopen
      rw [List.cons_append, readNext_base, readNext_base]
      by_cases hquote : isQuote c = true
      · rw [readLexeme_of_isQuote hquote, readLexeme_of_isQuote hquote, Literal.opened,
          Literal.opened]
        rcases Literal.read_append_cases (.quotedBy c rules.literalStyle) [] t b with
          hsame | ⟨inner, rest, hstyle, hread, hon⟩
        · exact Or.inl (by rw [hsame])
        · refine Or.inr ⟨inner, rest, by rw [hread, hstyle]; rfl, ?_⟩
          rw [hon, hstyle, List.length_cons, Nat.add_right_comm]
          rfl
      · rw [readLexeme_of_not_isQuote hquote] at hopen
        exact absurd rfl hopen

/-! ### Lines -/

/-- What a cut line has to come to: its styles and what is open behind it. -/
def CutsAt (rules : Rules) (stack : Stack) (a b : Text) : Prop :=
  Span.paint (lineSpans rules stack (a ++ b)) =
      Span.paint (lineSpans rules stack a) ++
        Span.paint (lineSpans rules (Mode.blip.carry rules stack [a]) b) ∧
    Mode.blip.carry rules stack [a ++ b] =
      Mode.blip.carry rules (Mode.blip.carry rules stack [a]) [b]

theorem CutsAt.nil (stack : Stack) (b : Text) : CutsAt rules stack [] b := by
  rw [CutsAt, List.nil_append, carry_line_nil, lineSpans_nil]
  exact ⟨rfl, rfl⟩

theorem CutsAt.read {stack next : Stack} {taken rest b : Text} {style : Option Style}
    (hne : taken ≠ [])
    (hread : readNext rules stack (taken ++ rest) = ⟨style, taken.length, next⟩)
    (hon : readNext rules stack (taken ++ (rest ++ b)) = ⟨style, taken.length, next⟩)
    (h : CutsAt rules next rest b) : CutsAt rules stack (taken ++ rest) b := by
  obtain ⟨hpaint, hcarry⟩ := h
  rw [CutsAt, List.append_assoc, Span.paint_lineSpans_read hne hon, carry_line_read hne hon,
    Span.paint_lineSpans_read hne hread, carry_line_read hne hread, hpaint, hcarry, List.append_assoc]
  exact ⟨rfl, rfl⟩

theorem CutsAt.read_on {stack rest : Stack} {inner : Literal} {t b : Text} (ht : t ≠ [])
    (hread : readNext rules stack t = ⟨inner.style, t.length, inner :: rest⟩)
    (hon : readNext rules stack (t ++ b) =
      ⟨inner.style, t.length + (inner.read rest b).length, (inner.read rest b).stack⟩) :
    CutsAt rules stack t b := by
  have hnil : readNext rules stack (t ++ []) = ⟨inner.style, t.length, inner :: rest⟩ := by
    rw [List.append_nil, hread]
  have hcarry := carry_line_read ht hnil
  have hpaint := Span.paint_lineSpans_read ht hnil
  rw [List.append_nil, carry_line_nil] at hcarry
  rw [List.append_nil, lineSpans_nil, Span.paint_nil, List.append_nil] at hpaint
  by_cases hb : b = []
  · rw [CutsAt, hb, List.append_nil, hcarry, hpaint, lineSpans_nil, carry_line_nil,
      Span.paint_nil, List.append_nil]
    exact ⟨rfl, rfl⟩
  · -- the part of the span behind the cut is the first reading there
    have hpos := Literal.length_read_pos inner rest hb
    have hle := Literal.length_read_le inner rest b
    have hback := readNext_literal rules inner rest hb
    rw [Literal.reading] at hback
    generalize inner.read rest b = r at hpos hle hback hon
    obtain ⟨taken, others, rfl, htaken⟩ : ∃ taken others, b = taken ++ others ∧
        taken.length = r.length :=
      ⟨b.take r.length, b.drop r.length, (List.take_append_drop _ b).symm,
        List.length_take_of_le hle⟩
    have hne : taken ≠ [] := List.length_pos_iff.mp (htaken ▸ hpos)
    rw [← htaken] at hback hon
    rw [← List.append_assoc, ← List.length_append] at hon
    have hwhole : t ++ taken ≠ [] := List.append_ne_nil_of_left_ne_nil ht taken
    rw [CutsAt, hcarry, hpaint, ← List.append_assoc, Span.paint_lineSpans_read hwhole hon,
      carry_line_read hwhole hon, Span.paint_lineSpans_read hne hback, carry_line_read hne hback,
      List.length_append, ← List.replicate_append_replicate, List.append_assoc]
    exact ⟨rfl, rfl⟩

/-- **A line cut behind a text that leaves something open.** -/
theorem cutsAt_of_open {stack : Stack} {a : Text}
    (hopen : Mode.blip.carry rules stack [a] ≠ []) (b : Text) : CutsAt rules stack a b := by
  induction stack, a using readings_induction rules with
  | nil stack => exact .nil stack b
  | read stack next taken rest style hne hread ih =>
    rw [carry_line_read hne hread] at hopen
    by_cases hrest : rest = []
    · -- the reading ends at the cut
      rw [hrest, carry_line_nil] at hopen
      rw [hrest, List.append_nil] at hread
      have hstack : (readNext rules stack taken).stack ≠ [] := by rwa [hread]
      rcases readNext_append_cases hne hstack b with hon | ⟨inner, more, hinner, hon⟩
      · subst hrest
        rw [hread] at hon
        exact (CutsAt.nil next b).read hne (by rwa [List.append_nil]) (by rwa [List.nil_append])
      · rw [hrest, List.append_nil]
        exact .read_on hne hinner hon
    · have hahead : SameAhead (readNext rules stack (taken ++ rest)).length (taken ++ rest)
          (taken ++ (rest ++ b)) := by
        rw [hread, ← List.append_assoc]
        refine .append_right ?_ b
        show taken.length < (taken ++ rest).length
        have hpos := List.length_pos_iff.mpr hrest
        rw [List.length_append]
        omega
      have hon := readNext_of_sameAhead hahead
      rw [hread] at hon
      exact (ih hopen).read hne hread hon

/-! ### Tokens of a cut line -/

/-- The style of each character of a line of the given length: that of the token that covers
it, and nothing where no token does. -/
def Row.styles (row : Row) (length : Nat) : List (Option (Option Style)) :=
  (List.range length).map fun i =>
    (row.tokens.find? fun token => token.Covers i).map Token.style

/-- The first token that covers a character is the only one, as far as its style goes. -/
theorem style_find?_covers (number : Int) (stack : Stack) (t : Text) (i : Nat) :
    ((Mode.blip.row rules true number stack t).tokens.find? fun token => token.Covers i).map
        Token.style = (Span.paint (lineSpans rules stack t))[i]? := by
  have hcovers := Span.exists_covers_iff number 0 i (lineSpans rules stack t)
  rw [Nat.zero_add, ← tokens_row_keepGaps] at hcovers
  have hfound : ∀ token, ((Mode.blip.row rules true number stack t).tokens.find? fun token =>
      token.Covers i) = some token → (Span.paint (lineSpans rules stack t))[i]? =
        some token.style := by
    intro token hfind
    have hcover : token.Covers i := by simpa using List.find?_some hfind
    exact (hcovers token.style).mp ⟨token, List.mem_of_find?_eq_some hfind, rfl, hcover⟩
  cases hfind : (Mode.blip.row rules true number stack t).tokens.find? fun token =>
      token.Covers i with
  | some token => rw [hfound token hfind, Option.map_some]
  | none =>
    cases hpaint : (Span.paint (lineSpans rules stack t))[i]? with
    | none => rfl
    | some style =>
      obtain ⟨token, hmem, -, hcover⟩ := (hcovers style).mpr hpaint
      exact absurd (decide_eq_true hcover) (List.find?_eq_none.mp hfind token hmem)

/-- **With the gaps kept every character is covered**, and its style is that of the paint. -/
theorem styles_row (number : Int) (stack : Stack) (t : Text) :
    (Mode.blip.row rules true number stack t).styles t.length =
      (Span.paint (lineSpans rules stack t)).map some := by
  apply List.ext_getElem?
  intro i
  rw [Row.styles, List.getElem?_map, List.getElem?_map]
  by_cases hi : i < t.length
  · rw [← Span.length_paint_lineSpans rules stack t] at hi ⊢
    rw [List.getElem?_range hi, Option.map_some, style_find?_covers, List.getElem?_eq_getElem hi]
    rfl
  · have hpaint : (Span.paint (lineSpans rules stack t)).length ≤ i := by
      rw [Span.length_paint_lineSpans]
      omega
    rw [List.getElem?_eq_none (by rw [List.length_range]; omega), List.getElem?_eq_none hpaint]
    rfl

/-- **A line may be cut wherever something is open.**  Read as two lines, in one after the
other, it leaves the same open and shows every character in the same style. -/
theorem row_append_of_open (config : Config) (number next : Int) (stack : Stack) (a b : Text)
    (hopen : (Mode.blip.row config.rules true number stack a).stack ≠ []) :
    let front := Mode.blip.row config.rules true number stack a
    let back := Mode.blip.row config.rules true next front.stack b
    let whole := Mode.blip.row config.rules true number stack (a ++ b)
    whole.stack = back.stack ∧
      whole.styles (a ++ b).length = front.styles a.length ++ back.styles b.length ∧
      none ∉ whole.styles (a ++ b).length := by
  intro front back whole
  obtain ⟨hpaint, hcarry⟩ := cutsAt_of_open hopen b
  refine ⟨hcarry, ?_, ?_⟩
  · rw [styles_row, styles_row, styles_row, hpaint, List.map_append]
    rfl
  · rw [styles_row]
    simp

/-- A cut behind a backslash, in the inner one of two literals. -/
theorem row_cut_behind_escape :
    let outer : Literal := { opening := ['('], closing := [')'], style := some .comment }
    let a := "x(y\\".toList
    let b := ")z))\"c4".toList
    let front := Mode.blip.row Config.default.rules true 1 [outer] a
    let back := Mode.blip.row Config.default.rules true 2 front.stack b
    let whole := Mode.blip.row Config.default.rules true 1 [outer] (a ++ b)
    front.stack = [{ outer with escaped := true }, outer] ∧ whole.stack = back.stack ∧
      whole.styles (a ++ b).length = front.styles a.length ++ back.styles b.length := by
  intro outer a b front back whole
  have hfront : front.stack = [{ outer with escaped := true }, outer] := by decide +kernel
  have hopen : front.stack ≠ [] := by
    rw [hfront]
    exact List.cons_ne_nil _ _
  obtain ⟨hstack, hstyles, -⟩ := row_append_of_open Config.default 1 2 [outer] a b hopen
  exact ⟨hfront, hstack, hstyles⟩

end ChipHighlight
