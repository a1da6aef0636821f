import ChipHighlight.Config.Basic
import ChipHighlight.Proofs.Lexeme.Marks
import ChipHighlight.Proofs.Line.Paint
import ChipHighlight.Proofs.Line.Rows

/-!
# The outline of a document

What is literal and what is comment can be found one character at a time, with a
`Phase` that only the backslash, the quotes and the percent sign change.  A whole
reading is in step with the phases of the characters it takes (`InStep`): they are all
of one part, and what is open behind them is what the phase says.  So the readings of a
line follow the phases (`lineSpans_follow_phases`), and then those of all lines do,
whatever notes, numbers and words the rules find on the way.
-/

namespace ChipHighlight

/-- Where an outline stands: outside of literals, behind a backslash there, in a comment,
or in a literal, of which it knows the quote and whether a backslash hides what is next. -/
inductive Phase
  | base
  | hidden
  | comment
  | literal (quote : Char) (escaped : Bool)
deriving DecidableEq, Repr

inductive Part
  | plain
  | comment
  | literal
deriving DecidableEq, Repr

namespace Phase

def next : Phase → Char → Phase
  | base, c =>
    if c = '\\' then hidden
    else if c = '\'' ∨ c = '"' then literal c false
    else if c = '%' then comment
    else base
  | hidden, _ => base
  | comment, _ => comment
  | literal quote escaped, c =>
    if c = quote ∧ escaped = false then base else literal quote (!escaped && c == '\\')

/-- The phase behind the end of a line: only literals go on. -/
def endLine : Phase → Phase
  | literal quote escaped => literal quote escaped
  | base | hidden | comment => base

def run (p : Phase) (t : Text) : Phase := t.foldl next p

def afterLines (p : Phase) (lines : List Text) : Phase :=
  lines.foldl (fun p line => (p.run line).endLine) p

/-- What a character is.  Both quotes are part of the literal, and the percent sign is
part of the comment. -/
def part (p : Phase) (c : Char) : Part :=
  match p, p.next c with
  | literal _ _, _ => .literal
  | _, literal _ _ => .literal
  | _, comment => .comment
  | _, _ => .plain

def parts (p : Phase) : Text → List Part
  | [] => []
  | c :: t => p.part c :: (p.next c).parts t

def stack : Phase → Stack
  | literal quote escaped => [{ Literal.quotedBy quote .string with escaped := escaped }]
  | base | hidden | comment => []

@[simp] theorem run_nil (p : Phase) : p.run [] = p := rfl

theorem run_cons (p : Phase) (c : Char) (t : Text) : p.run (c :: t) = (p.next c).run t := rfl

theorem run_append (p : Phase) (s t : Text) : p.run (s ++ t) = (p.run s).run t :=
  List.foldl_append

theorem parts_append (p : Phase) (s t : Text) :
    p.parts (s ++ t) = p.parts s ++ (p.run s).parts t := by
  induction s generalizing p with
  | nil => rfl
  | cons c s ih => rw [List.cons_append, parts, parts, ih, run_cons, List.cons_append]

theorem parts_getElem? (p : Phase) {t : Text} {i : Nat} (h : i < t.length) :
    (p.parts t)[i]? = some ((p.run (t.take i)).part t[i]) := by
  induction t generalizing p i with
  | nil => exact absurd h (Nat.not_lt_zero _)
  | cons c t ih =>
    cases i with
    | zero => rfl
    | succ i => exact ih (p.next c) (Nat.lt_of_succ_lt_succ h)

theorem endLine_endLine (p : Phase) : p.endLine.endLine = p.endLine := by cases p <;> rfl

theorem stack_endLine (p : Phase) : p.endLine.stack = p.stack := by cases p <;> rfl

/-! ### Texts of one part -/

theorem next_base_of_not_isMark {c : Char} (h : isMark c = false) : base.next c = base := by
  rw [← Bool.not_eq_true, isMark_iff, isQuote_iff, not_or, not_or] at h
  obtain ⟨hescape, hquote, hcomment⟩ := h
  rw [next, if_neg hescape, if_neg hquote, if_neg hcomment]

theorem part_base_of_not_isMark {c : Char} (h : isMark c = false) : base.part c = .plain := by
  unfold part
  rw [next_base_of_not_isMark h]

theorem run_base_of_markless {t : Text} (h : Markless t) : base.run t = base := by
  induction t with
  | nil => rfl
  | cons c t ih =>
    obtain ⟨hc, ht⟩ := List.forall_mem_cons.mp h
    rw [run_cons, next_base_of_not_isMark hc, ih ht]

theorem parts_base_of_markless {t : Text} (h : Markless t) :
    base.parts t = List.replicate t.length .plain := by
  induction t with
  | nil => rfl
  | cons c t ih =>
    obtain ⟨hc, ht⟩ := List.forall_mem_cons.mp h
    rw [parts, part_base_of_not_isMark hc, next_base_of_not_isMark hc, ih ht, List.length_cons,
      List.replicate_succ]

theorem part_comment (c : Char) : comment.part c = .comment := rfl

theorem run_comment (t : Text) : comment.run t = comment := by
  induction t with
  | nil => rfl
  | cons c t ih => rw [run_cons, next, ih]

theorem parts_comment (t : Text) : comment.parts t = List.replicate t.length .comment := by
  induction t with
  | nil => rfl
  | cons c t ih => rw [parts, part_comment, next, ih, List.length_cons, List.replicate_succ]

end Phase

/-- What a style makes of a character, as far as an outline knows. -/
def Part.ofStyle : Option Style → Part
  | some .string => .literal
  | some .comment => .comment
  | _ => .plain

theorem Part.ofStyle_eq_literal {style : Option Style} :
    ofStyle style = .literal ↔ style = some .string := by
  rcases style with _ | style
  · exact ⟨nofun, nofun⟩
  · cases style <;> simp [ofStyle]

theorem Part.ofStyle_eq_comment {style : Option Style} :
    ofStyle style = .comment ↔ style = some .comment := by
  rcases style with _ | style
  · exact ⟨nofun, nofun⟩
  · cases style <;> simp [ofStyle]

/-! ### Readings -/

/-- **A reading in step with the phases** of the characters that it takes.  It ends in the
middle of a line only where a line could end, so that what comes next starts afresh. -/
structure InStep (p : Phase) (t : Text) (reading : Reading) : Prop where
  parts_eq : p.parts (t.take reading.length) =
    List.replicate reading.length (Part.ofStyle reading.style)
  stack_eq : (p.run (t.take reading.length)).stack = reading.stack
  settled : (p.run (t.take reading.length)).endLine = p.run (t.take reading.length) ∨
    t.drop reading.length = []

theorem inStep_literal (quote : Char) (escaped : Bool) (t : Text) :
    InStep (.literal quote escaped) t
      (Literal.reading { Literal.quotedBy quote .string with escaped := escaped } [] t) := by
  induction t generalizing escaped with
  | nil => exact ⟨rfl, rfl, Or.inl rfl⟩
  | cons c t ih =>
    let a : Literal := { Literal.quotedBy quote .string with escaped := escaped }
    by_cases hc : c = quote ∧ escaped = false
    · have hcloses : a.closesAt c = true := (a.closesAt_iff rfl).mpr hc
      have hread : a.reading [] (c :: t) = ⟨some .string, 1, []⟩ := by
        rw [Literal.reading, Literal.read_cons, if_pos hcloses]
        rfl
      have hrun : (Phase.literal quote escaped).run [c] = .base := by
        rw [Phase.run_cons, Phase.next, if_pos hc, Phase.run_nil]
      rw [hread]
      refine ⟨rfl, ?_, Or.inl ?_⟩
      · show ((Phase.literal quote escaped).run [c]).stack = []
        rw [hrun]
        rfl
      · show ((Phase.literal quote escaped).run [c]).endLine = (Phase.literal quote escaped).run [c]
        rw [hrun]
        rfl
    · have hcloses : ¬ a.closesAt c = true := mt (a.closesAt_iff rfl).mp hc
      have hopens : ¬ a.opensAt c = true := fun h => ((a.opensAt_iff rfl rfl).mp h).2.1 rfl
      have hnext : (Phase.literal quote escaped).next c =
          .literal quote (!escaped && c == '\\') := by
        rw [Phase.next, if_neg hc]
      obtain ⟨hparts, hstack, hsettled⟩ := ih (!escaped && c == '\\')
      have hread : a.reading [] (c :: t) = ⟨some .string, (((a.pass c).reading [] t).length + 1),
          ((a.pass c).reading [] t).stack⟩ := by
        rw [Literal.reading, Literal.read_cons, if_neg hcloses, if_neg hopens]
        rfl
      rw [hread]
      refine ⟨?_, ?_, ?_⟩
      · rw [List.take_succ_cons, Phase.parts, hnext, List.replicate_succ]
        exact congrArg (List.cons .literal) hparts
      · rw [List.take_succ_cons, Phase.run_cons, hnext]
        exact hstack
      · rw [List.take_succ_cons, Phase.run_cons, hnext]
        exact hsettled

theorem Part.ofStyle_wordStyle (rules : Rules) (word : Text) :
    ofStyle (wordStyle rules word) = .plain := by
  rcases wordStyle_cases rules word with h | h
  · rw [h]
    rfl
  · rw [h]
    rfl

theorem Lexeme.reading_of_isPlain (rules : Rules) (c : Char) (t : Text) {lexeme : Lexeme}
    (h : IsPlain lexeme.kind) :
    Part.ofStyle (lexeme.reading rules c t).style = .plain ∧
      (lexeme.reading rules c t).length = lexeme.length ∧
      (lexeme.reading rules c t).stack = [] := by
  obtain ⟨kind, length⟩ := lexeme
  obtain ⟨hescape, hcomment, hquote⟩ := h
  cases kind with
  | blank => exact ⟨rfl, rfl, rfl⟩
  | punctuation => exact ⟨rfl, rfl, rfl⟩
  | note => exact ⟨rfl, rfl, rfl⟩
  | number => exact ⟨rfl, rfl, rfl⟩
  | word => exact ⟨Part.ofStyle_wordStyle rules _, rfl, rfl⟩
  | escape => exact absurd rfl hescape
  | comment => exact absurd rfl hcomment
  | quote mark => exact absurd rfl (hquote mark)

theorem inStep_lexeme {rules : Rules} (hrules : rules.literalStyle = .string) (c : Char)
    (t : Text) : InStep .base (c :: t) (readLexeme rules c t) := by
  obtain ⟨rfl, hlexeme⟩ | ⟨hquote, hlexeme⟩ | ⟨rfl, hlexeme⟩ | ⟨hplain, hmarks⟩ :=
    Lexeme.read_cases rules.lenient c t
  · -- a backslash, and the character it hides unless the line ends there
    rw [readLexeme, hlexeme]
    cases t with
    | nil => exact ⟨rfl, rfl, Or.inr rfl⟩
    | cons d t =>
      have hone : min (d :: t).length 1 = 1 := Nat.min_eq_right (Nat.succ_le_succ (Nat.zero_le _))
      rw [hone]
      exact ⟨rfl, rfl, Or.inl rfl⟩
  · -- a quote, and the literal behind it
    have hnext : Phase.base.next c = .literal c false := by
      rcases isQuote_iff.mp hquote with rfl | rfl
      · rfl
      · rfl
    have hpart : Phase.base.part c = .literal := by
      unfold Phase.part
      rw [hnext]
    have hread : readLexeme rules c t = Literal.opened c .string t := by
      rw [readLexeme, hlexeme, ← hrules]
      rfl
    obtain ⟨hparts, hstack, hsettled⟩ := inStep_literal c false t
    rw [hread]
    refine ⟨?_, ?_, ?_⟩
    · show Phase.base.parts (c :: t.take _) = List.replicate (_ + 1) Part.literal
      rw [Phase.parts, hpart, hnext, List.replicate_succ]
      exact congrArg (List.cons .literal) hparts
    · show (Phase.base.run (c :: t.take _)).stack = _
      rw [Phase.run_cons, hnext]
      exact hstack
    · show (Phase.base.run (c :: t.take _)).endLine = Phase.base.run (c :: t.take _) ∨ t.drop _ = []
      rw [Phase.run_cons, hnext]
      exact hsettled
  · -- a comment, to the end of the line
    have hread : readLexeme rules commentMark t = ⟨some .comment, t.length + 1, []⟩ := by
      rw [readLexeme, hlexeme]
      rfl
    have hrun : Phase.base.run (commentMark :: t) = .comment := Phase.run_comment t
    rw [hread]
    refine ⟨?_, ?_, Or.inr ?_⟩
    · rw [List.take_succ_cons, List.take_length, List.replicate_succ]
      exact congrArg (List.cons .comment) (Phase.parts_comment t)
    · rw [List.take_succ_cons, List.take_length, hrun]
      rfl
    · exact List.drop_length
  · -- anything else
    obtain ⟨hstyle, hlength, hstack⟩ := Lexeme.reading_of_isPlain rules c t hplain
    have hlen : ((c :: t).take (Lexeme.read rules.lenient c t).length).length =
        (Lexeme.read rules.lenient c t).length :=
      List.length_take_of_le (Lexeme.length_read_le rules.lenient c t)
    refine ⟨?_, ?_, Or.inl ?_⟩
    · rw [readLexeme, hstyle, hlength, Phase.parts_base_of_markless hmarks, hlen]
    · rw [readLexeme, hstack, hlength, Phase.run_base_of_markless hmarks]
      rfl
    · rw [readLexeme, hlength, Phase.run_base_of_markless hmarks]
      rfl

/-- **Every reading is in step with the phases**, where a line can begin or go on. -/
theorem inStep_readNext {rules : Rules} (hrules : rules.literalStyle = .string) {p : Phase}
    (hp : p.endLine = p) {t : Text} (ht : t ≠ []) : InStep p t (readNext rules p.stack t) := by
  cases p with
  | base =>
    cases t with
    | nil => exact absurd rfl ht
    | cons c t => exact inStep_lexeme hrules c t
  | hidden => exact absurd hp nofun
  | comment => exact absurd hp nofun
  | literal quote escaped =>
    have hread := readNext_literal rules { Literal.quotedBy quote .string with escaped := escaped } []
      ht
    exact hread.symm ▸ inStep_literal quote escaped t

/-! ### Lines -/

theorem lineSpans_follow_phases {rules : Rules} (hrules : rules.literalStyle = .string)
    {p : Phase} {t : Text} (hp : p.endLine = p ∨ t = []) :
    (Span.paint (lineSpans rules p.stack t)).map Part.ofStyle = p.parts t ∧
      Span.stackAfter p.stack (lineSpans rules p.stack t) = (p.run t).stack := by
  induction hstack : p.stack, t using readings_induction rules generalizing p with
  | nil stack =>
    rw [lineSpans_nil]
    exact ⟨rfl, hstack.symm⟩
  | read stack next taken rest style hne hread ih =>
    have hsome : taken ++ rest ≠ [] := List.append_ne_nil_of_left_ne_nil hne rest
    have hstep : InStep p (taken ++ rest) ⟨style, taken.length, next⟩ := by
      rw [← hread, ← hstack]
      exact inStep_readNext hrules (hp.resolve_right hsome) hsome
    obtain ⟨hparts, hnext, hsettled⟩ := hstep
    rw [List.take_left] at hparts hnext hsettled
    rw [List.drop_left] at hsettled
    obtain ⟨hpaint, hafter⟩ := ih hsettled hnext
    rw [lineSpans_read hne hread, Span.paint_cons, List.map_append, List.map_replicate, hpaint,
      Phase.parts_append, hparts, Phase.run_append]
    exact ⟨rfl, hafter⟩

theorem carry_follows_phases {rules : Rules} (hrules : rules.literalStyle = .string) {p : Phase}
    (hp : p.endLine = p) (lines : List Text) :
    Mode.blip.carry rules p.stack lines = (p.afterLines lines).stack ∧
      (p.afterLines lines).endLine = p.afterLines lines := by
  induction lines generalizing p with
  | nil => exact ⟨rfl, hp⟩
  | cons line lines ih =>
    have hline : Span.stackAfter p.stack (lineSpans rules p.stack line) =
        (p.run line).endLine.stack := by
      rw [Phase.stack_endLine]
      exact (lineSpans_follow_phases hrules (Or.inl hp)).2
    have hrest := ih (Phase.endLine_endLine (p.run line))
    rw [← hline] at hrest
    exact hrest

/-- What the tokens of one style cover, if the style alone makes up one of the parts. -/
theorem covered_iff_part {rules : Rules} (hrules : rules.literalStyle = .string) {p : Phase}
    (hp : p.endLine = p) {style : Style} {kind : Part}
    (hkind : ∀ s, Part.ofStyle s = kind ↔ s = some style) (keepGaps : Bool) (number : Int)
    {t : Text} {j : Nat} (hj : j < t.length) :
    (∃ token ∈ (Mode.blip.row rules keepGaps number p.stack t).tokens,
      token.style = some style ∧ token.Covers j) ↔
      (p.run (t.take j)).part t[j] = kind := by
  have hpaint := (lineSpans_follow_phases hrules (t := t) (Or.inl hp)).1
  have hpart : ((Span.paint (lineSpans rules p.stack t)).map Part.ofStyle)[j]? =
      some ((p.run (t.take j)).part t[j]) := by
    rw [hpaint, Phase.parts_getElem? p hj]
  rw [List.getElem?_map] at hpart
  obtain ⟨s, hs, hpart⟩ := Option.map_eq_some_iff.mp hpart
  rw [Span.exists_covers_row_iff, hs, Option.some_inj, ← hpart, hkind]

/-- **A document follows its outline**, with any sharps and any further keywords, as long as
literals are shown as strings.  Behind each line the outline is outside of literals and
nothing is open, or it is in a literal and that literal alone is open.  A character is in
a string token exactly when the outline takes it for part of a literal, and in a comment
token exactly when it takes it for part of a comment. -/
theorem rows_follow_phases (config : Config) (hstring : config.stringStyle = .string)
    (keepGaps : Bool) (lines : List Text) {i : Nat} (hi : i < lines.length) :
    let before := Phase.base.afterLines (lines.take i)
    let after := Phase.base.afterLines (lines.take (i + 1))
    ∃ row, (Mode.blip.rows config.rules keepGaps 1 [] lines)[i]? = some row ∧
      (after = .base ∧ row.stack = [] ∨ ∃ quote escaped, after = .literal quote escaped ∧
        row.stack = [{ opening := [quote], closing := [quote], style := some .string,
                       escaped := escaped }]) ∧
      ∀ (j : Nat) (hj : j < lines[i].length),
        let part := (before.run (lines[i].take j)).part lines[i][j]
        ((∃ token ∈ row.tokens, token.style = some .string ∧ token.Covers j) ↔ part = .literal) ∧
        ((∃ token ∈ row.tokens, token.style = some .comment ∧ token.Covers j) ↔
          part = .comment) := by
  intro before after
  have hrules : config.rules.literalStyle = .string := hstring
  obtain ⟨hcarry, hbefore⟩ := carry_follows_phases hrules (p := .base) rfl (lines.take i)
  obtain ⟨hopen, hafter⟩ := carry_follows_phases hrules (p := .base) rfl (lines.take (i + 1))
  have hrow := Mode.rows_getElem? Mode.blip config.rules keepGaps 1 [] lines hi
  change Mode.blip.carry config.rules [] (lines.take i) = before.stack at hcarry
  change after.endLine = after at hafter
  rw [hcarry] at hrow
  refine ⟨_, hrow, ?_, ?_⟩
  · have hstack : Mode.blip.carry config.rules before.stack [lines[i]] = after.stack := by
      rw [← hcarry, ← Mode.carry_take_succ]
      exact hopen
    rw [Mode.stack_row, hstack]
    cases hphase : after with
    | base => exact Or.inl ⟨rfl, rfl⟩
    | hidden => rw [hphase] at hafter; exact absurd hafter nofun
    | comment => rw [hphase] at hafter; exact absurd hafter nofun
    | literal quote escaped => exact Or.inr ⟨quote, escaped, rfl, rfl⟩
  · intro j hj
    exact ⟨covered_iff_part hrules hbefore (fun _ => Part.ofStyle_eq_literal) _ _ hj,
      covered_iff_part hrules hbefore (fun _ => Part.ofStyle_eq_comment) _ _ hj⟩

/-- A literal that a hidden quote keeps open over the end of a line, and a comment. -/
theorem parts_behind_hidden_quote :
    let config : Config := { lenientSharps := .bool true }
    let lines := ["e#4 \"a%\\".toList, "\"b\" %\"".toList]
    config.stringStyle = .string ∧
      ∃ row, (Mode.blip.rows config.rules false 1 [] lines)[1]? = some row ∧
        (∃ token ∈ row.tokens, token.style = some .string ∧ token.Covers 2) ∧
        ¬ (∃ token ∈ row.tokens, token.style = some .string ∧ token.Covers 3) ∧
        (∃ token ∈ row.tokens, token.style = some .comment ∧ token.Covers 5) := by
  intro config lines
  obtain ⟨row, hrow, -, hparts⟩ :=
    rows_follow_phases config rfl false lines (show 1 < lines.length by decide)
  have hquote := (hparts 2 (by decide)).1
  have hblank := (hparts 3 (by decide)).1
  have hcomment := (hparts 5 (by decide)).2
  exact ⟨rfl, row, hrow, hquote.mpr (by decide), fun h => absurd (hblank.mp h) (by decide),
    hcomment.mpr (by decide)⟩

end ChipHighlight
