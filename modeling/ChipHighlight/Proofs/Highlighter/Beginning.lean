import ChipHighlight.Proofs.Highlighter.Rejected

/-!
# Where a document begins

A document that is read at once begins outside of literals.  A highlighter begins it with
what its mode has open at the start.  So the two agree only from the line on in front of
which the same is open in both (`drop_rows_ofSource`); for a mode that starts with nothing
open that is the first.  In the mode of the notation with a start of its own they agree on
every document exactly if that start is empty: a single character that is a token outside
of literals tells them apart.
-/

namespace ChipHighlight

namespace Highlighter

def ofSource (mode : Mode) (config : Config) (source : Text) : Highlighter :=
  ((new mode).update config (linesOf source) 0).highlighter

theorem rows_ofSource (mode : Mode) (config : Config) (source : Text) :
    (ofSource mode config source).rows =
      mode.rows config.rules false 1 mode.start (linesOf source) :=
  rows_update_new mode config (linesOf source) 0

/-- **From where the same is open the rows are the same.** -/
theorem drop_rows_ofSource {mode : Mode} {config : Config} {source : Text} {n : Nat}
    (h : mode.carry config.rules mode.start ((linesOf source).take n) =
      mode.carry config.rules [] ((linesOf source).take n)) :
    (ofSource mode config source).rows.drop n =
      (mode.rows config.rules false 1 [] (linesOf source)).drop n := by
  rw [rows_ofSource, Mode.drop_rows, Mode.drop_rows, h]

end Highlighter

/-! ### Documents of one character -/

theorem tokens_rows_singleton {mode : Mode} {rules : Rules} {stack next : Stack} {x : Char}
    {style : Option Style} (hx : isSpace x = false)
    (hread : mode.read rules stack [] [x] = ⟨style, 1, next⟩) :
    (mode.rows rules false 1 stack [[x]]).flatMap Row.tokens = [⟨style, [x], 1, 1, 0, 1⟩] := by
  have hspans : mode.spans rules stack [] [x] = [⟨[x], style, next⟩] := by
    rw [Mode.spans_read hread, List.drop_nil, Mode.spans_nil, List.take_nil]
  have hkept : keeps false ⟨style, [x], 1, 1, 0, 1⟩ = true := by
    rw [keeps, Token.isGap, isBlank_cons, hx, Bool.false_and, Bool.and_false]
    rfl
  rw [Mode.rows_cons, Mode.rows_nil, List.flatMap_cons, List.flatMap_nil, List.append_nil,
    Mode.row, Row.ofSpans, hspans]
  exact List.filter_eq_self.mpr fun token h => List.mem_singleton.mp h ▸ hkept

theorem read_stopping_literal (rules : Rules) (start : Stack) (a : Literal) (outer : Stack)
    (x : Char) :
    ∃ next, (Mode.stopping start none).read rules (a :: outer) [] [x] = ⟨a.style, 1, next⟩ := by
  have hpos := Literal.length_read_pos a outer (List.cons_ne_nil x [])
  have hle := Literal.length_read_le a outer [x]
  have hone : (a.read outer [x]).length = 1 := Nat.le_antisymm hle hpos
  refine ⟨(a.read outer [x]).stack, ?_⟩
  rw [← hone]
  rfl

/-- A character that is a token outside of literals shows the style of the literal that is
open at the start. -/
theorem style_eq_of_agree {config : Config} {a : Literal} {outer : Stack} {x : Char}
    {style : Option Style} (hx : isSpace x = false) (hline : linesOf [x] = [[x]])
    (hread : readLexeme config.rules x [] = ⟨style, 1, []⟩)
    (hagree : (Highlighter.ofSource (.stopping (a :: outer) none) config [x]).allTokens =
      ((Mode.stopping (a :: outer) none).transcribeSource config.rules false [x]).tokens) :
    a.style = style := by
  obtain ⟨next, hinside⟩ := read_stopping_literal config.rules (a :: outer) a outer x
  have houtside : (Mode.stopping (a :: outer) none).read config.rules [] [] [x] =
      ⟨style, 1, []⟩ := hread
  rw [Highlighter.allTokens, Highlighter.rows_ofSource, Mode.transcribeSource, Mode.transcribe,
    Transcript.ofRows, hline, tokens_rows_singleton hx houtside] at hagree
  rw [show (Mode.stopping (a :: outer) none).start = a :: outer from rfl,
    tokens_rows_singleton hx hinside] at hagree
  simpa using hagree

/-- **A document is highlighted from the start of its mode.**  That is how it is read at once
if the mode starts with nothing open, and otherwise from the line on in front of which the
same is open.  In the mode of the notation with a start of its own nothing less than an
empty start will do for all documents. -/
theorem highlighted_from_start (config : Config) :
    (∀ (mode : Mode) (source : Text),
      let highlighter := Highlighter.ofSource mode config source
      let outside := mode.rows config.rules false 1 [] (linesOf source)
      highlighter.allTokens =
          (mode.transcribe config.rules false 1 mode.start (linesOf source)).tokens ∧
        (mode.start = [] → highlighter.allTokens =
          (mode.transcribeSource config.rules false source).tokens) ∧
        ∀ n, mode.carry config.rules mode.start ((linesOf source).take n) =
            mode.carry config.rules [] ((linesOf source).take n) →
          highlighter.rows.drop n = outside.drop n) ∧
    ∀ start, (∀ source, (Highlighter.ofSource (.stopping start none) config source).allTokens =
        ((Mode.stopping start none).transcribeSource config.rules false source).tokens) ↔
      start = [] := by
  have hstart : ∀ (mode : Mode) (source : Text),
      (Highlighter.ofSource mode config source).allTokens =
        (mode.transcribe config.rules false 1 mode.start (linesOf source)).tokens := by
    intro mode source
    rw [Highlighter.allTokens, Highlighter.rows_ofSource]
    rfl
  have hempty : ∀ (mode : Mode) (source : Text), mode.start = [] →
      (Highlighter.ofSource mode config source).allTokens =
        (mode.transcribeSource config.rules false source).tokens := by
    intro mode source hnil
    rw [hstart, hnil]
    rfl
  refine ⟨fun mode source => ⟨hstart mode source, hempty mode source, fun n =>
    Highlighter.drop_rows_ofSource⟩, fun start => ⟨fun hagree => ?_, ?_⟩⟩
  · cases start with
    | nil => rfl
    | cons a outer =>
      -- no style is that of punctuation and that of a comment
      have hpunctuation : a.style = some .punctuation :=
        style_eq_of_agree rfl rfl rfl (hagree [':'])
      have hcomment : a.style = some .comment := style_eq_of_agree rfl rfl rfl (hagree ['%'])
      rw [hpunctuation] at hcomment
      cases hcomment
  · rintro rfl source
    exact hempty _ source rfl

/-- A literal that is open at the start and closes on the first line. -/
theorem rows_behind_closed_start :
    let mode := Mode.stopping [{ opening := ['('], closing := [')'] }] none
    let source := ")\nc4".toList
    mode.carry Config.default.rules mode.start ((linesOf source).take 1) =
        mode.carry Config.default.rules [] ((linesOf source).take 1) ∧
      (Highlighter.ofSource mode .default source).rows.drop 1 =
        (mode.rows Config.default.rules false 1 [] (linesOf source)).drop 1 := by
  intro mode source
  have hsame : mode.carry Config.default.rules mode.start ((linesOf source).take 1) =
      mode.carry Config.default.rules [] ((linesOf source).take 1) := by
    decide +kernel
  exact ⟨hsame, ((highlighted_from_start .default).1 mode source).2.2 1 hsame⟩

/-- **A start that is not empty shows.**  The quote closes the literal that is open at the
start, but opens one where nothing is open. -/
theorem tokens_ne_of_open_start :
    let mode := Mode.stopping [.quotedBy '"' .string] none
    let source := "a\"".toList
    (Highlighter.ofSource mode .default source).allTokens ≠
      (mode.transcribeSource Config.default.rules false source).tokens := by
  decide +kernel

end ChipHighlight
