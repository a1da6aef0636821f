import ChipHighlight.Proofs.Lexeme.Sharps
import ChipHighlight.Proofs.Line.Outline
import ChipHighlight.Proofs.Line.Tiling
import ChipHighlight.Proofs.Line.Twins
import ChipHighlight.Proofs.Reading.Lookahead

/-!
# What the choice of sharps changes in a line

Two runs read one line, under rules that differ only in the choice of sharps.  Up to the first
letter that is a note alone they give the same tokens, and there they part: the other run
takes the sharp as well.  What comes then may differ for a while.  But sharps are no marks,
so a line has one outline under both rules (`Phase.run`), and what is open behind the line
can be read off the outline and the style of literals (`stackAfter_lineSpans`).
-/

namespace ChipHighlight

/-! ### What is open behind a line -/

theorem Twins.eq_map {a b : Rules} {stack other : Stack} (h : Twins a b true stack other) :
    other = stack.map (Literal.restyle b.literalStyle) := by
  cases h
  rfl

theorem Twins.stackAfter {a b : Rules} (hlenient : b.lenient = a.lenient) {stack other : Stack}
    (h : Twins a b true stack other) (t : Text) :
    Twins a b true (Span.stackAfter stack (lineSpans a stack t))
      (Span.stackAfter other (lineSpans b other t)) := by
  induction stack, t using readings_induction a generalizing other with
  | nil stack =>
    rw [lineSpans_nil, lineSpans_nil]
    exact h
  | read stack next taken rest style hne hread ih =>
    cases taken with
    | nil => exact absurd rfl hne
    | cons c t =>
      obtain ⟨hlength, hnext, -⟩ := h.readNext hlenient c (t ++ rest)
      rw [← List.cons_append, hread] at hlength hnext
      let twin := ChipHighlight.readNext b other ((c :: t) ++ rest)
      have htwin : twin = ⟨twin.style, (c :: t).length, twin.stack⟩ := by
        rw [← show twin.length = (c :: t).length from hlength]
      rw [lineSpans_read hne hread, lineSpans_read hne htwin]
      exact ih hnext

/-- **What is open behind a line** that begins outside of literals hangs on its outline, and on
the style of literals. -/
theorem stackAfter_lineSpans (rules : Rules) (t : Text) :
    Span.stackAfter [] (lineSpans rules [] t) =
      (Phase.base.run t).stack.map (Literal.restyle rules.literalStyle) := by
  let plain : Rules := { rules with literalStyle := .string }
  have hnone : Twins plain rules true [] [] := .opened (List.forall_mem_nil _)
  have hplain : Span.stackAfter [] (lineSpans plain [] t) = (Phase.base.run t).stack :=
    (lineSpans_follow_phases (p := .base) rfl (Or.inl rfl)).2
  have hsame : rules.lenient = plain.lenient := rfl
  rw [(hnone.stackAfter hsame t).eq_map, hplain]

/-! ### Tokens -/

/-- A reading outside of literals opens nothing, or the line ends in the literal it opens. -/
theorem readNext_closed_or_whole (rules : Rules) (t : Text) :
    (readNext rules [] t).stack = [] ∨ (readNext rules [] t).length = t.length := by
  cases t with
  | nil => exact Or.inl rfl
  | cons c t =>
    rw [readNext_base]
    by_cases hquote : isQuote c = true
    · rw [readLexeme_of_isQuote hquote]
      rcases Literal.read_of_same_quotes (a := .quotedBy c rules.literalStyle) rfl [] t with
        hclosed | ⟨flag, hopen⟩
      · exact Or.inl hclosed
      · exact Or.inr (congrArg (·.length + 1) hopen)
    · rw [readLexeme_of_not_isQuote hquote]
      exact Or.inl rfl

theorem LexemeKind.eq_note_of_style {rules : Rules} {spelling : Text} {kind : LexemeKind}
    (h : kind.style rules spelling = some .note) : kind = .note := by
  cases kind with
  | note => rfl
  | word => rcases wordStyle_cases rules spelling with hword | hword <;> cases hword.symm.trans h
  | _ => cases h

variable {rules : Rules}

theorem LexemeKind.style_lenient (rules : Rules) (lenient : Bool) (spelling : Text)
    (kind : LexemeKind) :
    kind.style { rules with lenient := lenient } spelling = kind.style rules spelling := by
  cases kind <;> rfl

theorem Lexeme.eq_of_loneNote {lexeme : Lexeme} {t : Text} (hlen : lexeme.length ≤ t.length)
    (h : LoneNote (lexeme.kind.style rules (t.take lexeme.length)) (t.take lexeme.length)) :
    lexeme = ⟨.note, 1⟩ := by
  obtain ⟨hstyle, hletter⟩ := h
  obtain ⟨c, hc, -⟩ := exists_letter_of_sharpless hletter
  have hone : lexeme.length = 1 := by
    rw [← List.length_take_of_le hlen, hc]
    rfl
  rw [← LexemeKind.eq_note_of_style hstyle, ← hone]

/-- **What the choice of sharps changes in a reading** outside of literals: nothing, unless it is
a letter read as a note alone; then more is read with it. -/
theorem readLexeme_lenient_cases (hstrict : rules.lenient = false) (c : Char) (t : Text) :
    let reading := readLexeme rules c t
    let twin := readLexeme { rules with lenient := true } c t
    let lone := LoneNote reading.style ((c :: t).take reading.length)
    twin = reading ∧ ¬ lone ∨ lone ∧ reading.length < twin.length := by
  intro reading twin lone
  by_cases hquote : isQuote c = true
  · left
    have hreading : reading = Literal.opened c rules.literalStyle t :=
      readLexeme_of_isQuote hquote t
    refine ⟨(readLexeme_of_isQuote hquote t).trans hreading.symm, fun hlone => ?_⟩
    obtain ⟨d, hd, hplain⟩ := exists_letter_of_sharpless hlone.2
    rw [hreading, length_opened, List.take_succ_cons, List.cons_eq_cons] at hd
    exact hplain (hd.1 ▸ hquote)
  · have hreading := @readLexeme_of_not_isQuote rules c hquote t
    have htwin := @readLexeme_of_not_isQuote { rules with lenient := true } c hquote t
    rw [hstrict] at hreading
    rcases Lexeme.read_lenient_cases c t with ⟨hsame, hother⟩ | ⟨hletter, hnote, hlonger⟩
    · left
      rw [hsame, LexemeKind.style_lenient] at htwin
      refine ⟨htwin.trans hreading.symm, fun hlone => hother ?_⟩
      have hlexeme : LoneNote (readLexeme rules c t).style
          ((c :: t).take (readLexeme rules c t).length) := hlone
      rw [hreading] at hlexeme
      exact Lexeme.eq_of_loneNote (t := c :: t) (Lexeme.length_read_le false c t) hlexeme
    · right
      rw [hnote] at hreading
      constructor
      · show LoneNote (readLexeme rules c t).style ((c :: t).take (readLexeme rules c t).length)
        rw [hreading]
        exact ⟨rfl, hletter⟩
      · show (readLexeme rules c t).length < (readLexeme _ c t).length
        rw [hreading, htwin]
        exact hlonger

/-- **What the choice of sharps changes in the tokens of a line** that begins outside of literals:
nothing, unless there is a letter that is a note alone. -/
theorem place_lineSpans_lenient_iff (hstrict : rules.lenient = false) (number : Int) (offset : Nat)
    (t : Text) :
    let tokens := Span.place number offset (lineSpans rules [] t)
    Span.place number offset (lineSpans { rules with lenient := true } [] t) = tokens ↔
      ∀ token ∈ tokens, ¬ LoneNote token.style token.text := by
  dsimp only
  induction hstack : ([] : Stack), t using readings_induction rules generalizing offset with
  | nil stack =>
    rw [lineSpans_nil, lineSpans_nil]
    exact iff_of_true rfl (List.forall_mem_nil _)
  | read stack next taken rest style hne hread ih =>
    subst hstack
    cases taken with
    | nil => exact absurd rfl hne
    | cons c t =>
      have hcases := readLexeme_lenient_cases hstrict c (t ++ rest)
      dsimp only at hcases
      rw [← readNext_base, ← readNext_base, ← List.cons_append, hread] at hcases
      rw [List.take_left] at hcases
      rw [lineSpans_read hne hread, Span.place, if_neg (by simp)]
      rcases hcases with ⟨htwin, hlone⟩ | ⟨hlone, hlonger⟩
      · rw [lineSpans_read hne htwin, Span.place, if_neg (by simp), List.cons_inj_right,
          List.forall_mem_cons]
        refine Iff.trans ?_ (and_iff_right hlone).symm
        have hnext := readNext_closed_or_whole rules ((c :: t) ++ rest)
        rw [hread] at hnext
        obtain hclosed | hwhole : next = [] ∨ (c :: t).length = ((c :: t) ++ rest).length := hnext
        · subst hclosed
          exact ih _ rfl
        · obtain rfl : rest = [] := by
            rw [List.length_append] at hwhole
            exact List.length_eq_zero_iff.mp (by omega)
          rw [lineSpans_nil, lineSpans_nil]
          exact iff_of_true rfl (List.forall_mem_nil _)
      · refine iff_of_false (fun hsame => ?_) fun hnone => hnone _ List.mem_cons_self hlone
        obtain ⟨longer, rest', style', next', htext, hne', hread'⟩ :=
          exists_readNext { rules with lenient := true } [] (List.cons_ne_nil c (t ++ rest))
        rw [List.cons_append, htext, hread'] at hlonger
        rw [List.cons_append, htext, lineSpans_read hne' hread', Span.place,
          if_neg (by simpa using hne')] at hsame
        have hfirst : longer = c :: t := congrArg Token.text (List.cons_eq_cons.mp hsame).1
        rw [hfirst] at hlonger
        exact Nat.lt_irrefl _ hlonger

/-- **When the choice of sharps matters.**  Under configurations that differ in nothing but this
choice, a line that begins outside of literals gives the same tokens exactly when no letter is
read as a note alone; and the same is open behind it in any case. -/
theorem sharps_matter_iff (strict lenient : Config) (hstrict : strict.lenientSharps.isOn = false)
    (hlenient : lenient.lenientSharps.isOn = true)
    (hwords : lenient.extraKeywords = strict.extraKeywords)
    (hstyle : lenient.stringStyle = strict.stringStyle) (number : Int) (line : Text) :
    let run := Mode.blip.transcribeLine strict.rules true number [] line
    let twin := Mode.blip.transcribeLine lenient.rules true number [] line
    (twin.tokens = run.tokens ↔ ∀ token ∈ run.tokens, ¬ LoneNote token.style token.text) ∧
      twin.stack = run.stack := by
  intro run twin
  have hrules : lenient.rules = { strict.rules with lenient := true } := by
    rw [Config.rules, Config.rules, hlenient, hwords, hstyle]
  have htokens : ∀ rules : Rules, (Mode.blip.transcribeLine rules true number [] line).tokens =
      Span.place number 0 (lineSpans rules [] line) := fun rules =>
    (List.append_nil _).trans (tokens_row_keepGaps rules number [] line)
  have hstack : ∀ rules : Rules, (Mode.blip.transcribeLine rules true number [] line).stack =
      (Phase.base.run line).stack.map (Literal.restyle rules.literalStyle) := fun rules =>
    stackAfter_lineSpans rules line
  constructor
  · rw [htokens, htokens, hrules]
    exact place_lineSpans_lenient_iff hstrict number 0 line
  · rw [hstack, hstack, hrules]

/-- The runs part at the sharp, and meet again in the literal. -/
theorem sharps_before_literal :
    let strict : Config := {}
    let lenient : Config := { lenientSharps := .bool true }
    let line := "c#1 e#4c 'e#".toList
    let run := Mode.blip.transcribeLine strict.rules true 1 [] line
    let twin := Mode.blip.transcribeLine lenient.rules true 1 [] line
    strict.lenientSharps.isOn = false ∧ lenient.lenientSharps.isOn = true ∧
      lenient.extraKeywords = strict.extraKeywords ∧ lenient.stringStyle = strict.stringStyle ∧
      (∃ token ∈ run.tokens, LoneNote token.style token.text) ∧ twin.tokens ≠ run.tokens ∧
      twin.stack = run.stack ∧ run.stack = [.quotedBy '\'' .string] := by
  intro strict lenient line run twin
  obtain ⟨htokens, hstack⟩ := sharps_matter_iff strict lenient rfl rfl rfl rfl 1 line
  have hlone : ∃ token ∈ run.tokens, LoneNote token.style token.text := by decide +kernel
  refine ⟨rfl, rfl, rfl, rfl, hlone, fun hsame => ?_, hstack, by decide +kernel⟩
  obtain ⟨token, hmem, htoken⟩ := hlone
  exact htokens.mp hsame token hmem htoken

end ChipHighlight
