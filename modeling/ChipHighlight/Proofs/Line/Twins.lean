import ChipHighlight.Config.Basic
import ChipHighlight.Proofs.Line.Origin
import Mathlib.Data.List.Forall2

/-!
# Two configurations

Two runs read the same lines, beginning with the same literals open, under configurations
that agree on which notes take a sharp.  What the further keywords and the style of literals
are then makes no difference to where a span ends: both runs stay in step, reading for
reading.

What is open in the two runs is the same as long as it was open in front, and once a span
began outside of literals it is the same but for the style (`Twins`).  A literal is read
without a look at its style (`Literal.read_restyle`), and a lexeme without a look at the
keywords, so one reading keeps this (`Twins.readNext`) and so do lines (`Twins.ofLines`).
The rule that leaves gaps out looks at styles, but only at those of white space, which is
neither a word nor, as a span of a literal that the run opened, without a style.
-/

namespace ChipHighlight

/-! ### Literals in another style -/

namespace Literal

def restyle (style : Style) (a : Literal) : Literal := { a with style := some style }

/-- **A literal is read without a look at its style.** -/
theorem read_restyle (style : Style) (a : Literal) (outer : Stack) (t : Text) :
    (a.restyle style).read (outer.map (restyle style)) t =
      ⟨(a.read outer t).length, (a.read outer t).stack.map (restyle style)⟩ := by
  induction t generalizing a outer with
  | nil => rfl
  | cons c t ih =>
    have hcloses : (a.restyle style).closesAt c = a.closesAt c := rfl
    have hopens : (a.restyle style).opensAt c = a.opensAt c := rfl
    rw [read_cons, read_cons, hcloses, hopens]
    split
    · rfl
    · split
      · exact congrArg Advance.further (ih a.fresh (a :: outer))
      · exact congrArg Advance.further (ih (a.pass c) outer)

/-- What is open after a reading has the style of the literal that was read, or was open
outside of it. -/
theorem style_of_mem_read {a b : Literal} {outer : Stack} {t : Text}
    (h : b ∈ (a.read outer t).stack) : b.style = a.style ∨ b ∈ outer := by
  induction t generalizing a outer with
  | nil =>
    rcases List.mem_cons.mp h with rfl | h
    · exact Or.inl rfl
    · exact Or.inr h
  | cons c t ih =>
    rw [read_cons] at h
    split at h
    · exact Or.inr h
    · split at h
      · rcases ih (a := a.fresh) h with hstyle | hmem
        · exact Or.inl hstyle
        · rcases List.mem_cons.mp hmem with rfl | hmem
          · exact Or.inl rfl
          · exact Or.inr hmem
      · exact ih (a := a.pass c) h

end Literal

/-! ### Styles of one span in two runs -/

/-- **How the styles of a span differ** under two rules.  That of a literal that the runs
opened is each rules' own.  A word can be a keyword under one and have no style under the
other, if it is not reserved and only the one counts it among its further keywords. -/
def Origin.Styles (a b : Rules) (text : Text) (style other : Option Style) : Origin → Prop
  | opened => style = some a.literalStyle ∧ other = some b.literalStyle
  | lexeme .word =>
    other = style ∨
      Keyword.isReserved text = false ∧
        (a.keywords.contains text = true ∧ b.keywords.contains text = false ∧
            style = some .keyword ∧ other = none ∨
          a.keywords.contains text = false ∧ b.keywords.contains text = true ∧
            style = none ∧ other = some .keyword)
  | _ => other = style

/-- **How the spans of two runs correspond**: they have one origin, and are the same but for
their styles. -/
structure Corresponds (a b : Rules) (x y : Token × Origin) : Prop where
  origin_eq : y.2 = x.2
  token_eq : y.1 = { x.1 with style := y.1.style }
  styles : x.2.Styles a b x.1.text x.1.style y.1.style

/-- **What is open in two runs**, before a span began outside of literals and after one
did. -/
inductive Twins (a b : Rules) : Bool → Stack → Stack → Prop
  | carried (stack : Stack) : Twins a b false stack stack
  | opened {stack : Stack} :
      (∀ literal ∈ stack, literal.style = some a.literalStyle) →
      Twins a b true stack (stack.map (Literal.restyle b.literalStyle))

section

variable {a b : Rules} {outside : Bool} {stack other : Stack}

theorem Origin.styles_wordStyle (a b : Rules) (word : Text) :
    (lexeme .word).Styles a b word (wordStyle a word) (wordStyle b word) := by
  show wordStyle b word = wordStyle a word ∨ _
  cases hreserved : Keyword.isReserved word with
  | true =>
    refine Or.inl ?_
    rw [wordStyle, wordStyle, Keyword.style?, if_pos hreserved]
  | false =>
    have hstyle : ∀ rules : Rules, wordStyle rules word =
        if rules.keywords.contains word then some .keyword else none := by
      intro rules
      rw [wordStyle, Keyword.style?, hreserved]
      rfl
    rw [hstyle, hstyle]
    cases a.keywords.contains word <;> cases b.keywords.contains word <;> simp

theorem Origin.isSpace_of_word {lenient : Bool} {c : Char} {t : Text}
    (h : Origin.of lenient outside stack c t = .lexeme .word) : isSpace c = false := by
  by_contra hspace
  rw [Bool.not_eq_false] at hspace
  cases stack with
  | nil =>
    rw [Origin.of, Lexeme.read, if_pos hspace] at h
    cases h
  | cons _ _ =>
    cases outside with
    | true => cases h
    | false => cases h

/-- **Both runs hand out the same spans.** -/
theorem Origin.Styles.keeps_eq {origin : Origin} {token : Token} {style : Option Style}
    (h : origin.Styles a b token.text token.style style)
    (hword : origin = .lexeme .word → isBlank token.text = false) (keepGaps : Bool) :
    keeps keepGaps { token with style := style } = keeps keepGaps token := by
  have hsame : style = token.style →
      keeps keepGaps { token with style := style } = keeps keepGaps token := by
    rintro rfl
    rfl
  cases origin with
  | carried => exact hsame h
  | opened =>
    obtain ⟨htoken, rfl⟩ := h
    rw [keeps, keeps, Token.isGap, Token.isGap, htoken]
    rfl
  | lexeme kind =>
    cases kind with
    | word =>
      rw [keeps, keeps, Token.isGap, Token.isGap]
      dsimp only
      rw [hword rfl, Bool.and_false, Bool.and_false]
    | _ => exact hsame h

/-! ### One reading -/

theorem twins_readLexeme (hlenient : b.lenient = a.lenient) (outside : Bool) (c : Char)
    (t : Text) :
    let reading := readLexeme a c t
    let twin := readLexeme b c t
    twin.length = reading.length ∧ Twins a b true reading.stack twin.stack ∧
      (Origin.of a.lenient outside [] c t).Styles a b ((c :: t).take reading.length)
        reading.style twin.style := by
  have hnone : Twins a b true [] [] := @Twins.opened a b [] (List.forall_mem_nil _)
  rw [readLexeme, readLexeme, hlenient, Lexeme.reading, Lexeme.reading, Origin.of]
  dsimp only
  cases (Lexeme.read a.lenient c t).kind with
  | quote mark =>
    let literal := Literal.quotedBy mark a.literalStyle
    have hread : (Literal.quotedBy mark b.literalStyle).read [] t =
        ⟨(literal.read [] t).length, (literal.read [] t).stack.map _⟩ :=
      Literal.read_restyle b.literalStyle literal [] t
    have hstyle : ∀ l ∈ (literal.read [] t).stack, l.style = some a.literalStyle := by
      intro l hl
      rcases Literal.style_of_mem_read hl with hstyle | hmem
      · exact hstyle
      · cases hmem
    dsimp only [Literal.opened]
    rw [hread]
    exact ⟨rfl, .opened hstyle, rfl, rfl⟩
  | word => exact ⟨rfl, hnone, Origin.styles_wordStyle a b _⟩
  | _ => exact ⟨rfl, hnone, rfl⟩

/-- **One reading keeps two runs in step.** -/
theorem Twins.readNext (hlenient : b.lenient = a.lenient) (h : Twins a b outside stack other)
    (c : Char) (t : Text) :
    let reading := readNext a stack (c :: t)
    let twin := readNext b other (c :: t)
    twin.length = reading.length ∧
      Twins a b (outside || stack.isEmpty) reading.stack twin.stack ∧
      (Origin.of a.lenient outside stack c t).Styles a b ((c :: t).take reading.length)
        reading.style twin.style := by
  cases h with
  | carried stack =>
    cases stack with
    | nil => exact twins_readLexeme hlenient false c t
    | cons literal outer => exact ⟨rfl, .carried _, rfl⟩
  | opened hstyle =>
    cases stack with
    | nil => exact twins_readLexeme hlenient true c t
    | cons literal outer =>
      have hread := Literal.read_restyle b.literalStyle literal outer (c :: t)
      obtain ⟨hliteral, houter⟩ := List.forall_mem_cons.mp hstyle
      have hmem : ∀ l ∈ (literal.read outer (c :: t)).stack, l.style = some a.literalStyle := by
        intro l hl
        rcases Literal.style_of_mem_read hl with hl | hl
        · exact hl.trans hliteral
        · exact houter l hl
      have htwin : ChipHighlight.readNext b ((literal :: outer).map (.restyle b.literalStyle))
          (c :: t) = ⟨some b.literalStyle, _, _⟩ :=
        congrArg (fun advance => Reading.mk _ advance.length advance.stack) hread
      dsimp only
      rw [htwin]
      exact ⟨rfl, .opened hmem, hliteral, rfl⟩

theorem Twins.origin_eq (hlenient : b.lenient = a.lenient) (h : Twins a b outside stack other)
    (c : Char) (t : Text) :
    Origin.of b.lenient outside other c t = Origin.of a.lenient outside stack c t := by
  rw [hlenient]
  cases h with
  | carried stack => rfl
  | opened _ => cases stack <;> rfl

theorem Twins.isEmpty_eq (h : Twins a b outside stack other) : other.isEmpty = stack.isEmpty := by
  cases h with
  | carried stack => rfl
  | opened _ => exact List.isEmpty_map

/-! ### Lines -/

theorem Twins.ofLine (hlenient : b.lenient = a.lenient) (h : Twins a b outside stack other)
    (keepGaps : Bool) (number : Int) (offset : Nat) (t : Text) :
    let trace := Trace.ofLine a keepGaps number offset outside stack t
    let twin := Trace.ofLine b keepGaps number offset outside other t
    List.Forall₂ (Corresponds a b) trace.tokens twin.tokens ∧ twin.outside = trace.outside ∧
      Twins a b trace.outside trace.stack twin.stack := by
  induction stack, t using readings_induction a generalizing offset outside other with
  | nil stack =>
    rw [Trace.ofLine_nil, Trace.ofLine_nil]
    exact ⟨.nil, rfl, h⟩
  | read stack next taken rest style hne hread ih =>
    cases taken with
    | nil => exact absurd rfl hne
    | cons c t =>
      obtain ⟨hlength, hnext, hstyles⟩ := h.readNext hlenient c (t ++ rest)
      rw [← List.cons_append, hread] at hlength hnext hstyles
      rw [List.take_left] at hstyles
      let twin := ChipHighlight.readNext b other ((c :: t) ++ rest)
      have htwin : twin = ⟨twin.style, (c :: t).length, twin.stack⟩ := by
        rw [← show twin.length = (c :: t).length from hlength]
      obtain ⟨htokens, houtside, hstacks⟩ := ih hnext (offset + (c :: t).length)
      let token := Span.token number offset ⟨c :: t, style, next⟩
      have hword : Origin.of a.lenient outside stack c (t ++ rest) = .lexeme .word →
          isBlank token.text = false := by
        intro horigin
        rw [show token.text = c :: t from rfl, isBlank_cons, Origin.isSpace_of_word horigin,
          Bool.false_and]
      have hkeeps : keeps keepGaps (Span.token number offset ⟨c :: t, twin.style, twin.stack⟩) =
          keeps keepGaps token :=
        Origin.Styles.keeps_eq (show Origin.Styles _ _ token.text token.style _ _ from hstyles)
          hword keepGaps
      dsimp only
      rw [Trace.ofLine_read hread, Trace.ofLine_read htwin, h.origin_eq hlenient, h.isEmpty_eq,
        Trace.cons, Trace.cons, hkeeps]
      split
      · exact ⟨.cons ⟨rfl, rfl, hstyles⟩ htokens, houtside, hstacks⟩
      · exact ⟨htokens, houtside, hstacks⟩

/-- **Lines keep two runs in step.** -/
theorem Twins.ofLines (hlenient : b.lenient = a.lenient) (h : Twins a b outside stack other)
    (keepGaps : Bool) (number : Int) (lines : List Text) :
    let trace := Trace.ofLines a keepGaps number outside stack lines
    let twin := Trace.ofLines b keepGaps number outside other lines
    List.Forall₂ (Corresponds a b) trace.tokens twin.tokens ∧ twin.outside = trace.outside ∧
      Twins a b trace.outside trace.stack twin.stack := by
  induction lines generalizing number outside stack other with
  | nil => exact ⟨.nil, rfl, h⟩
  | cons line rest ih =>
    obtain ⟨htokens, houtside, hstacks⟩ := h.ofLine hlenient keepGaps number 0 line
    obtain ⟨hrest, houtside', hstacks'⟩ := ih hstacks (number + 1)
    dsimp only
    rw [Trace.ofLines, Trace.ofLines, houtside]
    exact ⟨List.rel_append htokens hrest, houtside', hstacks'⟩

end

/-- **Keywords and the style of literals never move a token.**  Two runs over the same lines,
from the same open literals and under configurations that agree on sharps, give the same
tokens but for their styles.  The styles differ only on the spans of literals that the runs
opened, where each is that of its own configuration, and on words that are not reserved and
that just one of the configurations has among its further keywords.  What is open in the end
is the same, or, if a span began outside of literals, the same but for the style. -/
theorem settings_never_move_tokens (a b : Config)
    (h : a.lenientSharps.isOn = b.lenientSharps.isOn) (keepGaps : Bool) (number : Int)
    (stack : Stack) (lines : List Text) :
    let run := Mode.blip.transcribe a.rules keepGaps number stack lines
    let twin := Mode.blip.transcribe b.rules keepGaps number stack lines
    let trace := Trace.ofLines a.rules keepGaps number false stack lines
    let twinTrace := Trace.ofLines b.rules keepGaps number false stack lines
    (run.tokens.map fun token => { token with style := none }) =
        (twin.tokens.map fun token => { token with style := none }) ∧
      run.tokens = trace.tokens.map Prod.fst ∧ twin.tokens = twinTrace.tokens.map Prod.fst ∧
      List.Forall₂ (Corresponds a.rules b.rules) trace.tokens twinTrace.tokens ∧
      Twins a.rules b.rules trace.outside run.stack twin.stack := by
  intro run twin trace twinTrace
  obtain ⟨htokens, hstack⟩ : trace.tokens.map Prod.fst = run.tokens ∧ trace.stack = run.stack :=
    Trace.ofLines_eq number false stack lines
  obtain ⟨ktokens, kstack⟩ :
      twinTrace.tokens.map Prod.fst = twin.tokens ∧ twinTrace.stack = twin.stack :=
    Trace.ofLines_eq number false stack lines
  obtain ⟨hspans, -, hstacks⟩ :=
    (Twins.carried stack).ofLines (a := a.rules) (b := b.rules) h.symm keepGaps number lines
  refine ⟨?_, htokens.symm, ktokens.symm, hspans, ?_⟩
  · rw [← htokens, ← ktokens, List.map_map, List.map_map, ← List.forall₂_eq_eq_eq,
      List.forall₂_map_left_iff, List.forall₂_map_right_iff]
    refine hspans.imp ?_
    intro x y hxy
    show { x.1 with style := none } = { y.1 with style := none }
    rw [hxy.token_eq]
  · rw [← hstack, ← kstack]
    exact hstacks

/-- A line begins inside of a literal, and ends inside of one that it opened. -/
theorem twins_behind_carried_literal :
    let a : Config := { extraKeywords := .ofList ["foo".toList], stringStyle := .comment }
    let b : Config := {}
    let stack : Stack := [.quotedBy '\'' .note]
    let lines := ["b' foo 'c".toList, "d".toList]
    let run := Mode.blip.transcribe a.rules false 1 stack lines
    let twin := Mode.blip.transcribe b.rules false 1 stack lines
    a.lenientSharps.isOn = b.lenientSharps.isOn ∧
      (run.tokens.map fun token => { token with style := none }) =
        (twin.tokens.map fun token => { token with style := none }) ∧
      run.tokens.map Token.style = [some .note, some .keyword, some .comment, some .comment] ∧
      twin.tokens.map Token.style = [some .note, none, some .string, some .string] := by
  intro a b stack lines run twin
  have h : a.lenientSharps.isOn = b.lenientSharps.isOn := rfl
  exact ⟨h, (settings_never_move_tokens a b h false 1 stack lines).1, by decide +kernel,
    by decide +kernel⟩

end ChipHighlight
