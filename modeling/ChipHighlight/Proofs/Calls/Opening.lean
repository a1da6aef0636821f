import ChipHighlight.Proofs.Calls.Discipline
import ChipHighlight.Proofs.Calls.Pulls

/-!
# The style that a literal was opened with

The configuration can be set anew in front of every call.  A run that begins outside of
literals has at most one open, since the two quotes of those that it opens are the same;
and what is open was opened by the last call that began outside, with the style of literals
that was set there (`OpenedBy`).  Every call inside is shown in that style, up to the one
that closes the literal, whatever is set by then.
-/

namespace ChipHighlight

namespace Call

def lastOutside (history : List Call) : Option Call :=
  (history.filter fun call => call.front.isEmpty).getLast?

structure Opens (call : Call) (quote : Char) : Prop where
  front_eq : call.front = []
  isQuote_eq : isQuote quote = true
  ahead_eq : call.ahead.head? = some quote

theorem lastOutside_of_outside {call : Call} (h : call.front = []) (history : List Call) :
    lastOutside (history ++ [call]) = some call := by
  rw [lastOutside, List.filter_append, List.filter_cons_of_pos (by rw [h]; rfl), List.filter_nil]
  exact List.getLast?_concat

theorem lastOutside_of_inside {call : Call} (h : call.front ≠ []) (history : List Call) :
    lastOutside (history ++ [call]) = lastOutside history := by
  rw [lastOutside, List.filter_append, List.filter_cons_of_neg (by simpa using h), List.filter_nil,
    List.append_nil]
  rfl

end Call

/-- **What is open behind some calls**: nothing, or the literal that the last call outside
opened. -/
inductive OpenedBy (history : List Call) : Stack → Prop
  | nothing : OpenedBy history []
  | literal {opening : Call} {quote : Char} (flag : Bool) :
      Call.lastOutside history = some opening → opening.Opens quote →
      OpenedBy history [{ Literal.quotedBy quote opening.config.stringStyle with escaped := flag }]

namespace Bookmark

variable {b next : Bookmark} {config : Config} {call : Call} {history : List Call}

theorem Makes.of_opens {quote : Char} (h : b.Makes config call next) (hopens : call.Opens quote) :
    ∃ t, call.reading = Literal.opened quote config.stringStyle t := by
  obtain ⟨hfront, hquote, hahead⟩ := hopens
  obtain ⟨t, ht⟩ := List.head?_eq_some_iff.mp hahead
  refine ⟨t, ?_⟩
  rw [h.reading_eq, ← h.front_eq, hfront, ht, readNext_base, readLexeme_of_isQuote hquote]
  rfl

theorem Makes.openedBy (h : b.Makes config call next) (hb : OpenedBy history b.stack) :
    OpenedBy (history ++ [call]) next.stack := by
  rw [h.stack_eq, h.reading_eq]
  generalize hstack : b.stack = stack at hb
  have hfront : call.front = stack := h.front_eq.trans hstack
  cases hb with
  | nothing =>
    obtain ⟨c, t, hahead⟩ := List.exists_cons_of_ne_nil h.ahead_ne_nil
    rw [hahead, readNext_base]
    by_cases hquote : isQuote c = true
    · have hopens : call.Opens c := ⟨hfront, hquote, by rw [hahead, List.head?_cons]⟩
      rw [readLexeme_of_isQuote hquote]
      show OpenedBy (history ++ [call]) ((Literal.quotedBy c config.stringStyle).read [] t).stack
      rcases Literal.read_of_same_quotes (a := .quotedBy c config.stringStyle) rfl [] t with
        hclosed | ⟨flag, hopen⟩
      · rw [hclosed]
        exact .nothing
      · rw [hopen, ← h.config_eq]
        exact .literal flag (Call.lastOutside_of_outside hfront history) hopens
    · rw [readLexeme_of_not_isQuote hquote]
      exact .nothing
  | @literal opening quote flag hlast hopens =>
    let literal : Literal :=
      { Literal.quotedBy quote opening.config.stringStyle with escaped := flag }
    have hinside : call.front ≠ [] := by
      rw [hfront]
      exact List.cons_ne_nil _ _
    have hlast' := (Call.lastOutside_of_inside hinside history).trans hlast
    rw [readNext_literal _ literal _ h.ahead_ne_nil]
    show OpenedBy (history ++ [call]) (literal.read [] call.ahead).stack
    rcases Literal.read_of_same_quotes (a := literal) rfl [] call.ahead with
      hclosed | ⟨flag', hopen⟩
    · rw [hclosed]
      exact .nothing
    · rw [hopen]
      exact .literal flag' hlast' hopens

/-- **What is open along a run**, if nothing was in front of it. -/
theorem openedBy_run (hb : b.stack = []) (configs : List Config) :
    OpenedBy (b.calls configs) (b.after configs).stack := by
  refine run_induction (motive := fun history b => OpenedBy history b.stack) ?_ ?_ configs
  · rw [hb]
    exact .nothing
  · intro history b config call next hopened hcall
    exact (makes_of_call? hcall).openedBy hopened

theorem style_of_calls_eq (hb : b.stack = []) {configs : List Config} {pre post : List Call}
    (h : b.calls configs = pre ++ call :: post) :
    (∀ quote, call.Opens quote → call.reading.style = some call.config.stringStyle) ∧
      (call.front ≠ [] → ∃ opening quote, Call.lastOutside pre = some opening ∧
        opening.Opens quote ∧ call.reading.style = some opening.config.stringStyle) := by
  obtain ⟨done, config, next, rfl, hmakes⟩ := exists_makes_of_calls_eq h
  constructor
  · intro quote hopens
    obtain ⟨t, hreading⟩ := hmakes.of_opens hopens
    rw [hreading, hmakes.config_eq]
    rfl
  · intro hinside
    have hopened := openedBy_run hb done
    generalize hstack : (b.after done).stack = stack at hopened
    have hfront : call.front = stack := hmakes.front_eq.trans hstack
    cases hopened with
    | nothing => exact absurd hfront hinside
    | literal flag hlast hopens =>
      refine ⟨_, _, hlast, hopens, ?_⟩
      rw [hmakes.reading_eq, hstack, readNext_literal _ _ _ hmakes.ahead_ne_nil]
      rfl

/-- **A call is a reading at its place**, under its own configuration. -/
theorem exists_perform_of_mem_calls {number : Int} {lines : List Text} {configs : List Config}
    {stack : Stack} (h : call ∈ (ofLines number stack lines).calls configs) :
    ∃ (i : Nat) (line : Text), lines[i]? = some line ∧ call.line = number + i ∧
      ∀ spanStart : Int,
        Cursor.Desk.perform ⟨⟨line, call.offset, spanStart⟩, call.front⟩ (.read call.config.rules) =
          some (.style call.reading.style,
            ⟨⟨line, call.offset + call.reading.length, spanStart⟩, call.reading.stack⟩) := by
  obtain ⟨i, line, hi, hnumber, hahead⟩ := exists_line_of_mem_calls h
  refine ⟨i, line, hi, hnumber, fun spanStart => ?_⟩
  obtain ⟨pre, post, hsplit⟩ := List.append_of_mem h
  obtain ⟨done, config, next, -, hmakes⟩ := exists_makes_of_calls_eq hsplit
  rw [Cursor.Desk.perform_read, hahead, hmakes.config_eq, hmakes.front_eq, ← hmakes.reading_eq]

end Bookmark

/-- **A literal keeps the style that it was opened with.**  A run of calls over some lines
begins outside of literals, and in front of each call another configuration may be set.
Each call is the reading at its place under the configuration that is set then.  One that
begins with the quote that opens a literal is shown in the style of literals set there; one
inside of a literal is shown in the style that was set when the last call outside opened it
with its quote, on whatever line that was.  And so it is for a scan that is asked for some
tokens at a time, with another configuration each time: what it gives is what such a run
finds. -/
theorem literals_keep_opening_style (number : Int) (lines : List Text) :
    (∀ configs : List Config,
      let run := (Bookmark.ofLines number [] lines).calls configs
      run.map Call.config <+: configs ∧
      ∀ pre call post, run = pre ++ call :: post →
        (∃ (i : Nat) (line : Text), lines[i]? = some line ∧ call.line = number + i ∧
          ∀ spanStart : Int,
            Cursor.Desk.perform ⟨⟨line, call.offset, spanStart⟩, call.front⟩
                (.read call.config.rules) =
              some (.style call.reading.style,
                ⟨⟨line, call.offset + call.reading.length, spanStart⟩, call.reading.stack⟩)) ∧
        (∀ quote, call.Opens quote → call.reading.style = some call.config.stringStyle) ∧
        (call.front ≠ [] → ∃ opening quote, Call.lastOutside pre = some opening ∧
          opening.Opens quote ∧ call.reading.style = some opening.config.stringStyle)) ∧
    ∀ (keepGaps : Bool) (asks : List (Config × Nat)), ∃ chunks : List (List Call),
      (Bookmark.ofLines number [] lines).calls (chunks.flatten.map Call.config) =
          chunks.flatten ∧
      List.Forall₂ (fun ask chunk => ∀ call ∈ chunk, call.config = ask.1) asks chunks ∧
      Scan.asked asks [] ⟨.blip, keepGaps, Scan.numbered number lines⟩ =
        chunks.map fun chunk => (chunk.map Call.token).filter (keeps keepGaps) := by
  constructor
  · intro configs run
    refine ⟨Bookmark.map_config_calls_prefix _ configs, ?_⟩
    intro pre call post hrun
    have hmem : call ∈ run := by
      rw [hrun]
      exact List.mem_append_right pre List.mem_cons_self
    exact ⟨Bookmark.exists_perform_of_mem_calls hmem, Bookmark.style_of_calls_eq rfl hrun⟩
  · intro keepGaps asks
    exact Scan.exists_calls_of_asked keepGaps asks [] (Scan.numbered number lines)

/-- A literal that ends on the next line, where another style of literals is set. -/
theorem literal_behind_other_style :
    let comments : Config := { stringStyle := .comment }
    let numbers : Config := { stringStyle := .number }
    let run := (Bookmark.ofLines 1 [] ["x 'a\\".toList, "'b' c".toList]).calls
      [numbers, numbers, comments, numbers]
    ∃ pre call, run = pre ++ [call] ∧ call.front ≠ [] ∧ call.text = "'b'".toList ∧
      call.config.stringStyle = .number ∧ call.reading.style = some .comment ∧
      ∃ opening quote, Call.lastOutside pre = some opening ∧ opening.Opens quote ∧
        call.reading.style = some opening.config.stringStyle := by
  intro comments numbers run
  let call : Call := run.get ⟨3, by decide⟩
  have hrun : run = run.take 3 ++ [call] := rfl
  have hinside : call.front ≠ [] := by decide
  obtain ⟨-, hcalls⟩ := (literals_keep_opening_style 1 _).1 [numbers, numbers, comments, numbers]
  obtain ⟨-, -, hstyle⟩ := hcalls _ _ _ hrun
  exact ⟨run.take 3, call, hrun, hinside, by decide, rfl, by decide, hstyle hinside⟩

end ChipHighlight
