import ChipHighlight.Proofs.Calls.Basic
import ChipHighlight.Proofs.Literal.Actions

/-!
# The discipline of the stack

One reading either closes the innermost literal, or it opens some more of the same kind
inside of it and stops there; outside of literals it opens one at most (`Turns`).  All
further out stays as it was.  A literal inside which others are opened has its flag down,
so along a run only the innermost literal can have its flag up, if that was so before; and
the quotes and the style of a literal stay what they are as long as it is open.
-/

namespace ChipHighlight

/-- **What one reading that takes so many characters makes of a stack.** -/
inductive Turns (rules : Rules) (taken : Nat) : Stack → Stack → Prop
  | outside : Turns rules taken [] []
  | opens {quote : Char} (flag : Bool) : isQuote quote = true →
      Turns rules taken [] [{ Literal.quotedBy quote rules.literalStyle with escaped := flag }]
  | closes (a : Literal) (outer : Stack) : Turns rules taken (a :: outer) outer
  | stays {a : Literal} {inner outer : Stack} {flag : Bool} :
      (∀ b ∈ inner, b.fresh = a.fresh) → (inner ≠ [] → flag = false) →
      (∀ b ∈ inner.tail, b.escaped = false) → inner.length ≤ taken →
      Turns rules taken (a :: outer) (inner ++ { a with escaped := flag } :: outer)

/-- No literal but the innermost has its flag up. -/
def FlagsInside (stack : Stack) : Prop := ∀ a ∈ stack.tail, a.escaped = false

instance (stack : Stack) : Decidable (FlagsInside stack) :=
  inferInstanceAs (Decidable (∀ a ∈ stack.tail, a.escaped = false))

/-- The `n` outermost open literals, from the outside and without their flags. -/
def outermost (n : Nat) (stack : Stack) : Stack := (stack.map Literal.fresh).reverse.take n

variable {rules : Rules} {taken : Nat} {stack next : Stack} {a : Literal} {outer : Stack}

namespace Turns

theorem flagged (a : Literal) (outer : Stack) (flag : Bool) :
    Turns rules taken (a :: outer) ({ a with escaped := flag } :: outer) :=
  .stays (List.forall_mem_nil _) (absurd rfl) (List.forall_mem_nil _) (Nat.zero_le _)

/-- One more character in front, which sets the flag of the literal. -/
theorem behind_flag {flag : Bool}
    (h : Turns rules taken ({ a with escaped := flag } :: outer) next) :
    Turns rules (taken + 1) (a :: outer) next := by
  cases h with
  | closes => exact .closes a _
  | stays halike hdown htail hfew =>
    exact .stays halike hdown htail (Nat.le_succ_of_le hfew)

/-- One more character in front, which opens a literal inside. -/
theorem behind_opening (hflag : a.escaped = false)
    (h : Turns rules taken (a.fresh :: a :: outer) next) :
    Turns rules (taken + 1) (a :: outer) next := by
  cases h with
  | closes => exact .flagged a outer a.escaped
  | @stays _ inner _ flag halike hdown htail hfew =>
    -- what was opened first is the outermost inside of the literal
    let first : Literal := { a with escaped := flag }
    have hstays : Turns rules (taken + 1) (a :: outer)
        (inner ++ [first] ++ { a with escaped := a.escaped } :: outer) := by
      refine .stays ?_ (fun _ => hflag) ?_ ?_
      · intro b hb
        rcases List.mem_append.mp hb with hb | hb
        · exact halike b hb
        · rw [List.mem_singleton.mp hb]
          rfl
      · intro b hb
        cases inner with
        | nil => exact absurd hb List.not_mem_nil
        | cons innermost others =>
          rcases List.mem_append.mp hb with hb | hb
          · exact htail b hb
          · rw [List.mem_singleton.mp hb]
            exact hdown (List.cons_ne_nil _ _)
      · rw [List.length_append, List.length_singleton]
        exact Nat.succ_le_succ hfew
    rwa [List.append_assoc] at hstays

theorem flagsInside (h : Turns rules taken stack next) (hstack : FlagsInside stack) :
    FlagsInside next := by
  cases h with
  | outside => exact hstack
  | opens => exact List.forall_mem_nil _
  | closes a outer => exact fun b hb => hstack b (List.mem_of_mem_tail hb)
  | @stays a inner outer flag _ hdown htail _ =>
    intro b hb
    cases inner with
    | nil => exact hstack b hb
    | cons innermost others =>
      rcases List.mem_append.mp hb with hb | hb
      · exact htail b hb
      · rcases List.mem_cons.mp hb with rfl | hb
        · exact hdown (List.cons_ne_nil _ _)
        · exact hstack b hb

theorem outermost_eq (h : Turns rules taken stack next) {n : Nat} (hstack : n ≤ stack.length)
    (hnext : n ≤ next.length) : outermost n next = outermost n stack := by
  cases h with
  | outside => rfl
  | opens =>
    rw [Nat.le_zero.mp hstack]
    rfl
  | closes a outer =>
    rw [outermost, outermost, List.map_cons, List.reverse_cons,
      List.take_append_of_le_length (by rwa [List.length_reverse, List.length_map])]
  | @stays a inner outer flag _ _ _ _ =>
    have hfresh : ({ a with escaped := flag } : Literal).fresh = a.fresh := rfl
    rw [outermost, outermost, List.map_append, List.map_cons, hfresh, List.reverse_append,
      ← List.map_cons,
      List.take_append_of_le_length (by rwa [List.length_reverse, List.length_map])]

end Turns

/-! ### Readings -/

theorem Literal.turns_read (rules : Rules) (a : Literal) (outer : Stack) (t : Text) :
    Turns rules (a.read outer t).length (a :: outer) (a.read outer t).stack := by
  induction t generalizing a outer with
  | nil => exact .flagged a outer a.escaped
  | cons c t ih =>
    rw [read_cons]
    by_cases hcloses : a.closesAt c = true
    · rw [if_pos hcloses]
      exact .closes a outer
    rw [if_neg hcloses]
    by_cases hopens : a.opensAt c = true
    · rw [if_pos hopens]
      have hflag : a.escaped = false := by
        rw [opensAt, Bool.and_eq_true, Bool.and_eq_true, Bool.not_eq_true'] at hopens
        exact hopens.1.1
      exact (ih a.fresh (a :: outer)).behind_opening hflag
    · rw [if_neg hopens]
      exact (ih (a.pass c) outer).behind_flag

/-- **Every reading keeps the discipline.** -/
theorem turns_readNext (rules : Rules) (stack : Stack) (t : Text) :
    Turns rules (readNext rules stack t).length stack (readNext rules stack t).stack := by
  cases stack with
  | cons a outer =>
    cases t with
    | nil => exact .flagged a outer a.escaped
    | cons c t => exact a.turns_read rules outer (c :: t)
  | nil =>
    cases t with
    | nil => exact .outside
    | cons c t =>
      rw [readNext_base]
      by_cases hquote : isQuote c = true
      · rw [readLexeme_of_isQuote hquote]
        rcases Literal.read_of_same_quotes (a := .quotedBy c rules.literalStyle) rfl [] t with
          hclosed | ⟨flag, hopen⟩
        · show Turns rules _ [] (Literal.read _ [] t).stack
          rw [hclosed]
          exact .outside
        · show Turns rules _ [] (Literal.read _ [] t).stack
          rw [hopen]
          exact .opens flag hquote
      · rw [readLexeme_of_not_isQuote hquote]
        exact .outside

/-! ### Runs -/

namespace Bookmark

variable {b : Bookmark}

theorem Makes.turns {config : Config} {call : Call} {next : Bookmark}
    (h : b.Makes config call next) :
    Turns config.rules call.reading.length b.stack next.stack := by
  rw [h.stack_eq, h.reading_eq]
  exact turns_readNext config.rules b.stack call.ahead

/-- **Along a run only the innermost literal has its flag up.** -/
theorem flagsInside_run (hb : FlagsInside b.stack) (configs : List Config) :
    FlagsInside (b.after configs).stack ∧
      ∀ call ∈ b.calls configs, FlagsInside call.reading.stack := by
  refine run_induction
    (motive := fun history b =>
      FlagsInside b.stack ∧ ∀ call ∈ history, FlagsInside call.reading.stack)
    ⟨hb, List.forall_mem_nil _⟩ ?_ configs
  rintro history b config call next ⟨hstack, hhistory⟩ hcall
  have hmakes := makes_of_call? hcall
  have hnext : FlagsInside next.stack := hmakes.turns.flagsInside hstack
  refine ⟨hnext, ?_⟩
  intro made hmade
  rcases List.mem_append.mp hmade with hmade | hmade
  · exact hhistory made hmade
  · rw [List.mem_singleton.mp hmade, ← hmakes.stack_eq]
    exact hnext

/-- **Literals that a run does not close keep their quotes and styles.** -/
theorem outermost_run {n : Nat} (hb : n ≤ b.stack.length) {configs : List Config}
    (h : ∀ call ∈ b.calls configs, n ≤ call.reading.stack.length) :
    outermost n (b.after configs).stack = outermost n b.stack := by
  have hrun := run_induction
    (motive := fun history reached => (∀ call ∈ history, n ≤ call.reading.stack.length) →
      n ≤ reached.stack.length ∧ outermost n reached.stack = outermost n b.stack)
    (fun _ => ⟨hb, rfl⟩) ?_ configs h
  · exact hrun.2
  · intro history reached config call next ih hcall hhistory
    rw [List.forall_mem_append, List.forall_mem_singleton] at hhistory
    obtain ⟨hbefore, hdeep⟩ := hhistory
    obtain ⟨hreached, heq⟩ := ih hbefore
    have hmakes := makes_of_call? hcall
    rw [← hmakes.stack_eq] at hdeep
    exact ⟨hdeep, (hmakes.turns.outermost_eq hreached hdeep).trans heq⟩

end Bookmark

/-- **The stack is kept in order.**  One call before the end of a line always gives an
answer.  It takes some text, and either closes the innermost literal or opens some more of
its kind inside, not more than it takes characters; outside of literals it opens one at
most.  Done action by action, nothing is taken off that is not there.  So along a run only
the innermost literal has its flag up, if that was so at its beginning, and as long as `n`
literals are open, the `n` outermost keep their quotes and styles. -/
theorem stack_kept_in_order :
    (∀ (config : Config) (stack saved : Stack) (line : Text) (p : Nat) (spanStart : Int),
      p < line.length →
      ∃ (style : Option Style) (taken : Nat) (next : Stack),
        Cursor.Desk.perform ⟨⟨line, p, spanStart⟩, stack⟩ (.read config.rules) =
          some (.style style, ⟨⟨line, p + taken, spanStart⟩, next⟩) ∧
        0 < taken ∧ p + taken ≤ line.length ∧ Turns config.rules taken stack next ∧
        Checkpoint.performAll ⟨stack, saved⟩ (readActions config.rules stack (line.drop p)) =
          .ok ⟨next, saved⟩) ∧
    ∀ (b : Bookmark) (configs : List Config),
      (FlagsInside b.stack → FlagsInside (b.after configs).stack ∧
        ∀ call ∈ b.calls configs, FlagsInside call.reading.stack) ∧
      ∀ n, n ≤ b.stack.length → (∀ call ∈ b.calls configs, n ≤ call.reading.stack.length) →
        outermost n (b.after configs).stack = outermost n b.stack := by
  constructor
  · intro config stack saved line p spanStart hp
    have hne : line.drop p ≠ [] := by
      rw [Ne, List.drop_eq_nil_iff]
      omega
    have hle := length_readNext_le config.rules stack (line.drop p)
    rw [List.length_drop] at hle
    exact ⟨_, _, _, Cursor.Desk.perform_read config.rules stack line p spanStart,
      length_readNext_pos config.rules stack hne, by omega,
      turns_readNext config.rules stack (line.drop p),
      performAll_readActions config.rules stack saved (line.drop p)⟩
  · intro b configs
    exact ⟨fun hb => Bookmark.flagsInside_run hb configs, fun n hb => Bookmark.outermost_run hb⟩

/-- A quote that is hidden by the line before, two literals opened inside, of which one is
closed again, and a flag that is up at the end of the next line. -/
theorem stack_behind_reopened :
    let literal : Literal := { opening := ['<'], closing := ['>'], escaped := true }
    let line := "><<b\\>>".toList
    let b : Bookmark := .ofLines 1 [literal] [line, "c\\".toList]
    let configs : List Config := [{}, {}]
    0 < line.length ∧ FlagsInside b.stack ∧ 1 ≤ b.stack.length ∧
      (∀ call ∈ b.calls configs, 1 ≤ call.reading.stack.length) ∧
      (b.after configs).stack = [literal, literal.fresh] ∧
      FlagsInside (b.after configs).stack ∧
      outermost 1 (b.after configs).stack = outermost 1 b.stack ∧
      ∃ (style : Option Style) (taken : Nat) (next : Stack),
        Cursor.Desk.perform ⟨⟨line, (0 : Nat), 0⟩, [literal]⟩ (.read Config.default.rules) =
          some (.style style, ⟨⟨line, (0 : Nat) + taken, 0⟩, next⟩) ∧
        Turns Config.default.rules taken [literal] next := by
  intro literal line b configs
  have hline : 0 < line.length := by decide
  have hb : FlagsInside b.stack := by decide
  have hone : 1 ≤ b.stack.length := by decide
  have hdeep : ∀ call ∈ b.calls configs, 1 ≤ call.reading.stack.length := by decide
  obtain ⟨hcall, hrun⟩ := stack_kept_in_order
  obtain ⟨hflags, houtermost⟩ := hrun b configs
  obtain ⟨style, taken, next, hperform, -, -, hturns, -⟩ := hcall .default [literal] [] line 0 0 hline
  exact ⟨hline, hb, hone, hdeep, by decide, (hflags hb).1, houtermost 1 hone hdeep, style, taken,
    next, hperform, hturns⟩

end ChipHighlight
