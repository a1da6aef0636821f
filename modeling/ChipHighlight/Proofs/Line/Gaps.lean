import ChipHighlight.Log
import ChipHighlight.Proofs.Line.Tiling
import ChipHighlight.Proofs.Reading.Lookahead
import ChipHighlight.Proofs.Scan.AtOnce

/-!
# Gaps

Leaving gaps out is a filter and nothing else.  Row by row the gaps are dropped from the
tokens (`rows_dropGaps`), what is open stays the same, and so does the log, because the log
line of the end of a line does not say how many tokens it gave.

What a gap is hangs on the styles: white space in a literal without a style is one, and
white space in a string is none.  In a line without marks that begins outside of literals it
hangs on the characters alone.  There a reading takes white space up to the next other
character, or it takes no white space (`readNext_of_markless`); so the gaps are the maximal
runs of white space (`parts_place_lineSpans`), and the other tokens spell what is left of
the line when white space is taken away.
-/

namespace ChipHighlight

/-! ### A filter -/

def Row.dropGaps (row : Row) : Row :=
  { row with tokens := row.tokens.filter fun token => !token.isGap }

namespace Mode

variable (mode : Mode) (rules : Rules)

theorem row_dropGaps (number : Int) (stack : Stack) (line : Text) :
    mode.row rules false number stack line =
      (mode.row rules true number stack line).dropGaps := by
  let tokens := Span.place number 0 (mode.spans rules stack [] line)
  have hall : tokens.filter (keeps true) = tokens := List.filter_eq_self.mpr fun _ _ => rfl
  show Row.mk (tokens.filter (keeps false)) (mode.row rules true number stack line).stack =
    Row.mk ((tokens.filter (keeps true)).filter (keeps false)) _
  rw [hall]

theorem rows_dropGaps (number : Int) (stack : Stack) (lines : List Text) :
    mode.rows rules false number stack lines =
      (mode.rows rules true number stack lines).map Row.dropGaps := by
  induction lines generalizing number stack with
  | nil => rfl
  | cons line lines ih => rw [rows_cons, rows_cons, ih, row_dropGaps, List.map_cons]

end Mode

theorem Log.record?_lineEnd (number : Int) (chars tokens others depth : Nat) :
    record? (.lineEnd number chars tokens depth) = record? (.lineEnd number chars others depth) := by
  cases depth <;> rfl

theorem Log.ofEvents_endings_dropGaps (number : Int) (lines : List Text) (rows : List Row) :
    ofEvents (Row.endings number lines (rows.map Row.dropGaps)) =
      ofEvents (Row.endings number lines rows) := by
  induction lines generalizing number rows with
  | nil => rfl
  | cons line lines ih =>
    cases rows with
    | nil => rfl
    | cons row rows =>
      have hended : record? (row.dropGaps.ended number line) = record? (row.ended number line) :=
        record?_lineEnd ..
      have hothers : (Row.endings (number + 1) lines (rows.map Row.dropGaps)).filterMap record? =
          (Row.endings (number + 1) lines rows).filterMap record? := ih (number + 1) rows
      rw [List.map_cons, Row.endings, Row.endings, ofEvents, ofEvents, List.filterMap_cons,
        List.filterMap_cons, hended, hothers]

/-- **Leaving gaps out is a filter**, and changes neither what is open nor the log. -/
theorem Mode.transcribe_without_gaps (mode : Mode) (rules : Rules) (number : Int) (stack : Stack)
    (lines : List Text) :
    let all := mode.transcribe rules true number stack lines
    let kept := mode.transcribe rules false number stack lines
    kept.tokens = (all.tokens.filter fun token => !token.isGap) ∧
      kept.stack = all.stack ∧ Log.ofEvents kept.events = Log.ofEvents all.events := by
  dsimp only [transcribe, Transcript.ofRows]
  refine ⟨?_, ?_, ?_⟩
  · rw [rows_dropGaps, List.flatMap_map, List.filter_flatMap]
    rfl
  · rw [stackAfter_rows, stackAfter_rows]
  · rw [rows_dropGaps, Log.ofEvents_endings_dropGaps]

/-! ### White space apart -/

/-- **A maximal run of white space**: a part of the line, at the place that the token gives,
with no more white space on either side. -/
def Token.IsMaximalRun (line : Text) (token : Token) : Prop :=
  isBlank token.text = true ∧ ∃ before after, line = before ++ token.text ++ after ∧
    token.start = before.length ∧ (∀ c ∈ before.getLast?, isSpace c = false) ∧
    ∀ c ∈ after.head?, isSpace c = false

/-- **A token that keeps white space apart**: if it is a gap then it takes all the white
space there, and if not then it takes none. -/
structure Token.KeepsApart (line : Text) (token : Token) : Prop where
  gap : token.isGap = true → token.IsMaximalRun line
  other : token.isGap = false → ∀ c ∈ token.text, isSpace c = false

theorem Token.flatMap_text_of_keepsApart {tokens : List Token}
    (h : ∀ token ∈ tokens, ∃ line, token.KeepsApart line) :
    (tokens.filter fun token => !token.isGap).flatMap Token.text =
      (tokens.flatMap Token.text).filter fun c => !isSpace c := by
  induction tokens with
  | nil => rfl
  | cons token tokens ih =>
    obtain ⟨⟨_, hgap, hother⟩, hrest⟩ := List.forall_mem_cons.mp h
    rw [List.flatMap_cons, List.filter_append, ← ih hrest]
    cases hkind : token.isGap with
    | true =>
      obtain ⟨hblank, -⟩ := hgap hkind
      rw [isBlank, Bool.and_eq_true, List.all_eq_true] at hblank
      have hnone : (token.text.filter fun c => !isSpace c) = [] := by
        rw [List.filter_eq_nil_iff]
        intro c hc
        rw [hblank.2 c hc]
        exact Bool.false_ne_true
      rw [List.filter_cons_of_neg (by rw [hkind]; exact Bool.false_ne_true), hnone,
        List.nil_append]
    | false =>
      have hall : (token.text.filter fun c => !isSpace c) = token.text := by
        rw [List.filter_eq_self]
        intro c hc
        rw [hother hkind c hc]
        rfl
      rw [List.filter_cons_of_pos (by rw [hkind]; rfl), List.flatMap_cons, hall]

/-! ### Readings where there is no mark -/

/-- **A span that keeps white space apart** from the rest of its line: it has no style and is
all the white space up to the next other character, or there is no white space in it. -/
def Span.KeepsApart (rest : Text) (span : Span) : Prop :=
  span.style = none ∧ (∀ c ∈ span.text, isSpace c = true) ∧ (∀ c ∈ rest.head?, isSpace c = false) ∨
    ∀ c ∈ span.text, isSpace c = false

variable {rules : Rules} {taken rest : Text} {style : Option Style} {next : Stack}

/-- **A reading outside of literals**, where there is no mark, keeps white space apart and
opens nothing. -/
theorem readNext_of_markless (hmarks : Markless (taken ++ rest)) (hne : taken ≠ [])
    (hread : readNext rules [] (taken ++ rest) = ⟨style, taken.length, next⟩) :
    next = [] ∧ Span.KeepsApart rest ⟨taken, style, next⟩ := by
  cases taken with
  | nil => exact absurd rfl hne
  | cons c t =>
    have hmark : isMark c = false := hmarks c List.mem_cons_self
    have hquote : ¬ isQuote c = true := fun h =>
      Bool.false_ne_true (hmark.symm.trans (isMark_iff.mpr (Or.inr (Or.inl h))))
    rw [List.cons_append, readNext_base, readLexeme_of_not_isQuote hquote, Reading.mk.injEq,
      List.length_cons] at hread
    obtain ⟨hstyle, hlength, hnext⟩ := hread
    refine ⟨hnext.symm, ?_⟩
    cases hspace : isSpace c with
    | true =>
      left
      rw [Lexeme.read_of_isSpace hspace] at hstyle hlength
      have hrun : Text.runLength isSpace (t ++ rest) = t.length := Nat.succ.inj hlength
      have hrest := Text.drop_runLength isSpace (t ++ rest)
      rw [hrun, List.drop_left] at hrest
      refine ⟨hstyle.symm, ?_, ?_⟩
      · refine List.forall_mem_cons.mpr ⟨hspace, fun d hd => ?_⟩
        exact Text.of_mem_take_runLength (t := t ++ rest) (by rwa [hrun, List.take_left])
      · -- the run could not go on
        intro d hd
        rw [hrest] at hd
        have hhead := List.head?_dropWhile_not isSpace (t ++ rest)
        rw [hd] at hhead
        exact hhead
    | false =>
      right
      obtain ⟨-, n, hn, htail⟩ := Lexeme.exists_tail_of_read rules.lenient hspace hmark (t ++ rest)
      obtain rfl : n = t.length := Nat.succ.inj (hn.symm.trans hlength)
      rw [List.take_left] at htail
      exact List.forall_mem_cons.mpr ⟨hspace, fun d hd => not_isSpace_of_isTailPart (htail d hd)⟩

theorem Span.KeepsApart.token {before : Text} {span : Span} (h : span.KeepsApart rest)
    (hne : span.text ≠ [])
    (hcut : (∀ c ∈ before.getLast?, isSpace c = false) ∨
      ∀ c ∈ (span.text ++ rest).head?, isSpace c = false) (number : Int) :
    (span.token number before.length).KeepsApart (before ++ (span.text ++ rest)) := by
  obtain ⟨c, t, htext⟩ := List.exists_cons_of_ne_nil hne
  have hc : c ∈ span.text := htext ▸ List.mem_cons_self
  rcases h with ⟨hstyle, hspace, hhead⟩ | hspace
  · have hblank : isBlank span.text = true := by
      rw [isBlank, htext, List.isEmpty_cons, Bool.not_false, Bool.true_and, ← htext]
      exact List.all_eq_true.mpr hspace
    have hgap : (span.token number before.length).isGap = true := by
      show (span.style.isNone && isBlank span.text) = true
      rw [hstyle, hblank]
      rfl
    have hbehind : ∀ d ∈ before.getLast?, isSpace d = false := by
      refine hcut.resolve_right fun h => ?_
      have hfirst : isSpace c = false := h c (by rw [htext]; rfl)
      exact Bool.false_ne_true (hfirst.symm.trans (hspace c hc))
    refine ⟨fun _ => ⟨hblank, before, rest, (List.append_assoc ..).symm, rfl, hbehind, hhead⟩, ?_⟩
    intro hother
    exact absurd (hother.symm.trans hgap) Bool.false_ne_true
  · have hother : (span.token number before.length).isGap = false := by
      show (span.style.isNone && isBlank span.text) = false
      rw [htext, isBlank_cons, hspace c hc, Bool.false_and, Bool.and_false]
    refine ⟨fun hgap => ?_, fun _ => hspace⟩
    exact absurd (hother.symm.trans hgap) Bool.false_ne_true

/-! ### Lines and documents -/

/-- **Where there is no mark, every token keeps white space apart**, and no literal opens.
What is read stands behind `before`, and the cut between them is not within white space. -/
theorem keepsApart_place_lineSpans {before t : Text} (hmarks : Markless t)
    (hcut : (∀ c ∈ before.getLast?, isSpace c = false) ∨ ∀ c ∈ t.head?, isSpace c = false)
    (number : Int) :
    Span.stackAfter [] (lineSpans rules [] t) = [] ∧
    ∀ token ∈ Span.place number before.length (lineSpans rules [] t),
      token.KeepsApart (before ++ t) := by
  induction hstack : ([] : Stack), t using readings_induction rules generalizing before with
  | nil stack =>
    subst hstack
    rw [lineSpans_nil]
    exact ⟨rfl, List.forall_mem_nil _⟩
  | read stack next taken rest style hne hread ih =>
    subst hstack
    obtain ⟨rfl, hkind⟩ := readNext_of_markless hmarks hne hread
    have hrest : Markless rest := fun c hc => hmarks c (List.mem_append_right taken hc)
    have hcut' : (∀ c ∈ (before ++ taken).getLast?, isSpace c = false) ∨
        ∀ c ∈ rest.head?, isSpace c = false := by
      rcases hkind with ⟨-, -, hhead⟩ | hnone
      · exact Or.inr hhead
      · left
        intro c hc
        rw [List.getLast?_append_of_ne_nil before hne] at hc
        exact hnone c (List.mem_of_mem_getLast? hc)
    obtain ⟨hopen, htokens⟩ := ih hrest hcut' rfl
    rw [List.length_append, List.append_assoc] at htokens
    rw [lineSpans_read hne hread, Span.place, if_neg (by simpa using hne)]
    exact ⟨hopen, List.forall_mem_cons.mpr ⟨hkind.token hne hcut number, htokens⟩⟩

theorem keepsApart_row {line : Text} (hmarks : Markless line) (number : Int) :
    (Mode.blip.row rules true number [] line).stack = [] ∧
    ∀ token ∈ (Mode.blip.row rules true number [] line).tokens, token.KeepsApart line := by
  rw [tokens_row_keepGaps]
  exact @keepsApart_place_lineSpans rules [] line hmarks (Or.inl nofun) number

theorem exists_line_of_mem_rows {lines : List Text} (hmarks : ∀ line ∈ lines, Markless line)
    {number : Int} {token : Token}
    (h : token ∈ (Mode.blip.rows rules true number [] lines).flatMap Row.tokens) :
    ∃ (i : Nat) (line : Text), lines[i]? = some line ∧ token.line = number + i ∧
      token.KeepsApart line := by
  induction lines generalizing number with
  | nil => exact absurd h List.not_mem_nil
  | cons line lines ih =>
    obtain ⟨hline, hlines⟩ := List.forall_mem_cons.mp hmarks
    obtain ⟨hopen, htokens⟩ := @keepsApart_row rules line hline number
    rw [Mode.rows, List.flatMap_cons, List.mem_append, hopen] at h
    rcases h with h | h
    · exact ⟨0, line, rfl, (line_of_mem_row h).trans (Int.add_zero number).symm, htokens token h⟩
    · obtain ⟨i, other, hother, hnumber, hapart⟩ := ih hlines h
      exact ⟨i + 1, other, hother, by omega, hapart⟩

theorem Markless.of_mem_linesOf {source line : Text} (h : Markless source)
    (hline : line ∈ linesOf source) : Markless line := by
  have hnone : (linesOf source).flatten.filter isMark = [] := by
    rw [filter_flatten_linesOf rfl rfl, List.filter_eq_nil_iff]
    intro c hc
    rw [h c hc]
    exact Bool.false_ne_true
  intro c hc
  rw [← Bool.not_eq_true]
  exact List.filter_eq_nil_iff.mp hnone c (List.mem_flatten_of_mem hline hc)

/-- **Leaving gaps out is a pure filter.**  In any mode and from any open literals, lines read
without gaps give the tokens that they give with them, less the white space without a style,
and the same is open and logged in the end; and that is what a scan gives that is asked to
its end.  In a document without marks every gap is a maximal run of white space of its line
and no other token has white space in it, so those spell the document without its white
space and its line ends. -/
theorem gaps_left_out_by_filter (rules : Rules) :
    (∀ (mode : Mode) (number : Int) (stack : Stack) (lines : List Text),
      let run keepGaps := mode.transcribe rules keepGaps number stack lines
      (run false).tokens = ((run true).tokens.filter fun token => !token.isGap) ∧
        (run false).stack = (run true).stack ∧
        Log.ofEvents (run false).events = Log.ofEvents (run true).events ∧
        ∀ (keepGaps : Bool) (n : Nat), (run keepGaps).tokens.length < n →
          let batch := Scan.pull rules n stack ⟨mode, keepGaps, Scan.numbered number lines⟩
          batch.finished = true ∧ batch.tokens = (run keepGaps).tokens ∧
            batch.events = (run keepGaps).events ∧ batch.stack = (run keepGaps).stack) ∧
    ∀ source : Text, Markless source →
      let run keepGaps := Mode.blip.transcribeSource rules keepGaps source
      (∀ token ∈ (run true).tokens, token.isGap = true →
        ∃ (i : Nat) (line : Text), (linesOf source)[i]? = some line ∧ token.line = 1 + i ∧
          token.IsMaximalRun line) ∧
        (∀ token ∈ (run false).tokens, ∀ c ∈ token.text, isSpace c = false) ∧
        (run false).tokens.flatMap Token.text = source.filter fun c => !isSpace c := by
  constructor
  · intro mode number stack lines run
    obtain ⟨htokens, hstack, hlog⟩ := mode.transcribe_without_gaps rules number stack lines
    exact ⟨htokens, hstack, hlog, fun keepGaps => Scan.pull_numbered mode rules keepGaps number
      stack lines⟩
  · intro source hmarks run
    have happart : ∀ token ∈ (run true).tokens, ∃ (i : Nat) (line : Text),
        (linesOf source)[i]? = some line ∧ token.line = 1 + i ∧ token.KeepsApart line :=
      fun token h => exists_line_of_mem_rows (fun line hline => hmarks.of_mem_linesOf hline) h
    have htokens : (run false).tokens = (run true).tokens.filter fun token => !token.isGap :=
      (Mode.blip.transcribe_without_gaps rules 1 [] (linesOf source)).1
    refine ⟨?_, ?_, ?_⟩
    · intro token h hgap
      obtain ⟨i, line, hline, hnumber, hkind⟩ := happart token h
      exact ⟨i, line, hline, hnumber, hkind.gap hgap⟩
    · intro token h
      rw [htokens, List.mem_filter, Bool.not_eq_true'] at h
      obtain ⟨i, line, -, -, hkind⟩ := happart token h.1
      exact hkind.other h.2
    · have hlines : (run true).tokens.flatMap Token.text = (linesOf source).flatten :=
        flatMap_text_rows rules 1 [] (linesOf source)
      rw [htokens, Token.flatMap_text_of_keepsApart, hlines, filter_flatten_linesOf rfl rfl]
      intro token h
      obtain ⟨i, line, -, -, hkind⟩ := happart token h
      exact ⟨line, hkind⟩

/-- A tab and two wide blanks are one gap, a blank in front of a line end and a no-break
space behind it are two. -/
theorem gaps_around_line_end :
    let source := "c#4\t\u3000\u3000-3/8 \r\n\u00A0foo[b".toList
    let run keepGaps := Mode.blip.transcribeSource {} keepGaps source
    let kept : Scan := ⟨Mode.blip, false, Scan.numbered 1 (linesOf source)⟩
    Markless source ∧ (run false).tokens.length < 7 ∧
      (run true).tokens.map Token.isGap =
        [false, true, false, false, true, true, false, false, false] ∧
      (∀ token ∈ (run true).tokens, token.isGap = true →
        ∃ (i : Nat) (line : Text), (linesOf source)[i]? = some line ∧ token.line = 1 + i ∧
          token.IsMaximalRun line) ∧
      (run false).tokens.flatMap Token.text = "c#4-3/8foo[b".toList ∧
      (Scan.pull {} 7 [] kept).tokens = (run true).tokens.filter fun token => !token.isGap := by
  intro source run kept
  have hnone : (source.all fun c => !isMark c) = true := by decide +kernel
  have hmarks : Markless source := by
    intro c hc
    rw [← Bool.not_eq_true']
    exact List.all_eq_true.mp hnone c hc
  have hfew : (run false).tokens.length < 7 := by decide +kernel
  obtain ⟨hruns, hsources⟩ := gaps_left_out_by_filter {}
  obtain ⟨hfilter, -, -, hpull⟩ := hruns Mode.blip 1 [] (linesOf source)
  obtain ⟨hgaps, -, htext⟩ := hsources source hmarks
  refine ⟨hmarks, hfew, by decide +kernel, hgaps, htext.trans (by decide +kernel), ?_⟩
  exact (hpull false 7 hfew).2.1.trans hfilter

end ChipHighlight
