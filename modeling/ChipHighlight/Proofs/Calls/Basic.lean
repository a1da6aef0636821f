import ChipHighlight.Config.Basic
import ChipHighlight.Cursor.Action
import ChipHighlight.Proofs.Cursor.Lookahead
import ChipHighlight.Scan

/-!
# Calls

A host asks for one reading after the other, and in front of each it may set another
configuration.  A `Call` records one of them: the configuration, the place, what is open
there, and what the reading finds.  Where a host stands in between is a `Bookmark`, which
holds what is open and the lines that are not read to their end.

    b.calls configs    the calls that are made, one for each configuration
    b.after configs    where the host stands then

Once everything is read no further call is made.  A run of calls may stop anywhere and go
on later (`calls_append`), so whatever is said of all runs holds of their parts as well.
-/

namespace ChipHighlight

/-- One reading, as it was asked for and as it was answered. -/
structure Call where
  config : Config
  /-- The number of the line. -/
  line : Int
  /-- How much of the line is read before. -/
  offset : Nat
  /-- The text of the line from there on. -/
  ahead : Text
  /-- What is open in front. -/
  front : Stack
  reading : Reading

namespace Call

def text (call : Call) : Text := call.ahead.take call.reading.length

def token (call : Call) : Token :=
  Span.token call.line call.offset ⟨call.text, call.reading.style, call.reading.stack⟩

end Call

/-- Where a host stands in some lines: what is open there, and the lines that are not
read to their end. -/
structure Bookmark where
  stack : Stack
  lines : List OpenLine

namespace Bookmark

def ofLines (number : Int) (stack : Stack) (lines : List Text) : Bookmark :=
  ⟨stack, Scan.numbered number lines⟩

/-- The lines of which something is left to read, and those behind. -/
def left (b : Bookmark) : List OpenLine := b.lines.dropWhile fun line => line.rest.isEmpty

/-- **One call**, and where it leads, if something is left to read. -/
def call? (b : Bookmark) (config : Config) : Option (Call × Bookmark) :=
  match b.left with
  | [] => none
  | line :: others =>
    let reading := readNext config.rules b.stack line.rest
    let further := line.advance (line.rest.take reading.length) (line.rest.drop reading.length)
    some (⟨config, line.number, line.offset, line.rest, b.stack, reading⟩,
      ⟨reading.stack, further :: others⟩)

/-- **A run of calls**, one under each of the configurations. -/
def calls (b : Bookmark) : List Config → List Call
  | [] => []
  | config :: configs =>
    match b.call? config with
    | none => []
    | some (call, next) => call :: next.calls configs

def after (b : Bookmark) : List Config → Bookmark
  | [] => b
  | config :: configs =>
    match b.call? config with
    | none => b
    | some (_, next) => next.after configs

variable {b next : Bookmark} {config : Config} {configs : List Config} {call : Call}

@[simp] theorem calls_nil (b : Bookmark) : b.calls [] = [] := rfl

@[simp] theorem after_nil (b : Bookmark) : b.after [] = b := rfl

theorem calls_cons_of_none (h : b.call? config = none) : b.calls (config :: configs) = [] := by
  rw [calls, h]

theorem after_cons_of_none (h : b.call? config = none) : b.after (config :: configs) = b := by
  rw [after, h]

theorem calls_cons_of_some (h : b.call? config = some (call, next)) :
    b.calls (config :: configs) = call :: next.calls configs := by
  rw [calls, h]

theorem after_cons_of_some (h : b.call? config = some (call, next)) :
    b.after (config :: configs) = next.after configs := by
  rw [after, h]

/-! ### Where nothing is left -/

theorem call?_eq_none_iff : b.call? config = none ↔ b.left = [] := by
  unfold call?
  split
  · rename_i h
    exact ⟨fun _ => h, fun _ => rfl⟩
  · rename_i h
    rw [h]
    exact ⟨nofun, nofun⟩

theorem calls_of_left_nil (h : b.left = []) (configs : List Config) : b.calls configs = [] := by
  cases configs with
  | nil => rfl
  | cons config configs => exact calls_cons_of_none (call?_eq_none_iff.mpr h)

theorem after_of_left_nil (h : b.left = []) (configs : List Config) : b.after configs = b := by
  cases configs with
  | nil => rfl
  | cons config configs => exact after_cons_of_none (call?_eq_none_iff.mpr h)

/-! ### Runs in parts -/

/-- **A run of calls can stop and go on.** -/
theorem calls_append (b : Bookmark) (configs more : List Config) :
    b.calls (configs ++ more) = b.calls configs ++ (b.after configs).calls more := by
  induction configs generalizing b with
  | nil => rfl
  | cons config configs ih =>
    cases hcall : b.call? config with
    | none =>
      rw [List.cons_append, calls_cons_of_none hcall, calls_cons_of_none hcall,
        after_cons_of_none hcall, calls_of_left_nil (call?_eq_none_iff.mp hcall),
        List.append_nil]
    | some made =>
      obtain ⟨call, next⟩ := made
      rw [List.cons_append, calls_cons_of_some hcall, calls_cons_of_some hcall,
        after_cons_of_some hcall, ih, List.cons_append]

theorem take_calls (b : Bookmark) (configs : List Config) (n : Nat) :
    (b.calls configs).take n = b.calls (configs.take n) := by
  induction configs generalizing b n with
  | nil => rw [calls_nil, List.take_nil, List.take_nil, calls_nil]
  | cons config configs ih =>
    cases n with
    | zero => rfl
    | succ n =>
      cases hcall : b.call? config with
      | none =>
        rw [List.take_succ_cons, calls_cons_of_none hcall, calls_cons_of_none hcall, List.take_nil]
      | some made =>
        obtain ⟨call, next⟩ := made
        rw [List.take_succ_cons, calls_cons_of_some hcall, calls_cons_of_some hcall,
          List.take_succ_cons, ih]

/-! ### What a call is -/

/-- **A call that is made**: a reading of some text that is left, under the configuration
that is set and with what is open. -/
structure Makes (b : Bookmark) (config : Config) (call : Call) (next : Bookmark) : Prop where
  config_eq : call.config = config
  front_eq : call.front = b.stack
  ahead_ne_nil : call.ahead ≠ []
  reading_eq : call.reading = readNext config.rules b.stack call.ahead
  stack_eq : next.stack = call.reading.stack

theorem exists_left_of_call? (h : b.call? config = some (call, next)) :
    ∃ line others reading, b.left = line :: others ∧ line.rest ≠ [] ∧
      reading = readNext config.rules b.stack line.rest ∧
      call = ⟨config, line.number, line.offset, line.rest, b.stack, reading⟩ ∧
      next = ⟨reading.stack, line.advance (line.rest.take reading.length)
        (line.rest.drop reading.length) :: others⟩ := by
  unfold call? at h
  split at h
  · cases h
  · rename_i line others hleft
    obtain ⟨rfl, rfl⟩ := Prod.mk.inj (Option.some.inj h)
    refine ⟨line, others, _, hleft, ?_, rfl, rfl, rfl⟩
    have hbegun := List.head?_dropWhile_not (fun line : OpenLine => line.rest.isEmpty) b.lines
    rw [← left, hleft, List.head?_cons] at hbegun
    exact List.isEmpty_eq_false_iff.mp hbegun

theorem makes_of_call? (h : b.call? config = some (call, next)) : b.Makes config call next := by
  obtain ⟨line, others, reading, -, hne, hreading, rfl, rfl⟩ := exists_left_of_call? h
  exact ⟨rfl, rfl, hne, hreading, rfl⟩

/-- **What one call keeps, a run keeps**, along with what it says of the calls made so far. -/
theorem run_induction {motive : List Call → Bookmark → Prop} (start : motive [] b)
    (call : ∀ history b config call next, motive history b →
      b.call? config = some (call, next) → motive (history ++ [call]) next)
    (configs : List Config) : motive (b.calls configs) (b.after configs) := by
  suffices h : ∀ history b, motive history b →
      motive (history ++ b.calls configs) (b.after configs) from h [] b start
  clear start
  induction configs with
  | nil =>
    intro history b hmotive
    rwa [calls_nil, after_nil, List.append_nil]
  | cons config configs ih =>
    intro history b hmotive
    cases hcall : b.call? config with
    | none => rwa [calls_cons_of_none hcall, after_cons_of_none hcall, List.append_nil]
    | some made =>
      obtain ⟨first, next⟩ := made
      have hrest := ih (history ++ [first]) next (call history b config first next hmotive hcall)
      rw [List.append_assoc, List.singleton_append] at hrest
      rwa [calls_cons_of_some hcall, after_cons_of_some hcall]

/-- Each call of a run is made where those before it lead. -/
theorem exists_makes_of_calls_eq {pre post : List Call} (h : b.calls configs = pre ++ call :: post) :
    ∃ done config next, b.calls done = pre ∧ (b.after done).Makes config call next := by
  have hpre : b.calls (configs.take pre.length) = pre := by
    rw [← take_calls, h, List.take_left]
  have hrest := calls_append b (configs.take pre.length) (configs.drop pre.length)
  rw [List.take_append_drop, h, hpre, List.append_cancel_left_eq] at hrest
  cases hconfigs : configs.drop pre.length with
  | nil =>
    rw [hconfigs] at hrest
    cases hrest
  | cons config more =>
    rw [hconfigs] at hrest
    cases hcall : (b.after (configs.take pre.length)).call? config with
    | none =>
      rw [calls_cons_of_none hcall] at hrest
      cases hrest
    | some made =>
      obtain ⟨first, next⟩ := made
      rw [calls_cons_of_some hcall, List.cons.injEq] at hrest
      obtain ⟨rfl, -⟩ := hrest
      exact ⟨_, config, next, hpre, makes_of_call? hcall⟩

theorem map_config_calls_prefix (b : Bookmark) (configs : List Config) :
    (b.calls configs).map Call.config <+: configs := by
  induction configs generalizing b with
  | nil => exact List.prefix_refl _
  | cons config configs ih =>
    cases hcall : b.call? config with
    | none =>
      rw [calls_cons_of_none hcall]
      exact List.nil_prefix
    | some made =>
      obtain ⟨call, next⟩ := made
      rw [calls_cons_of_some hcall, List.map_cons, (makes_of_call? hcall).config_eq]
      exact (List.prefix_cons_inj config).mpr (ih next)

/-! ### Places -/

/-- Every line that is not finished is one of the given ones, from an offset on. -/
def Within (number : Int) (lines : List Text) (b : Bookmark) : Prop :=
  ∀ line ∈ b.lines, ∃ (i : Nat) (text : Text), lines[i]? = some text ∧ line.number = number + i ∧
    text.drop line.offset = line.rest

theorem within_ofLines (number : Int) (stack : Stack) (lines : List Text) :
    (ofLines number stack lines).Within number lines := by
  induction lines generalizing number with
  | nil => exact List.forall_mem_nil _
  | cons text lines ih =>
    refine List.forall_mem_cons.mpr ⟨⟨0, text, rfl, (Int.add_zero number).symm, rfl⟩, ?_⟩
    intro line hline
    obtain ⟨i, text', hi, hnumber, hrest⟩ := ih (number + 1) line hline
    exact ⟨i + 1, text', hi, by omega, hrest⟩

theorem exists_line_of_mem_calls {number : Int} {stack : Stack} {lines : List Text}
    (h : call ∈ (ofLines number stack lines).calls configs) :
    ∃ (i : Nat) (text : Text), lines[i]? = some text ∧ call.line = number + i ∧
      text.drop call.offset = call.ahead := by
  have hrun := run_induction (b := ofLines number stack lines)
    (motive := fun history b => b.Within number lines ∧
      ∀ call ∈ history, ∃ (i : Nat) (text : Text), lines[i]? = some text ∧
        call.line = number + i ∧ text.drop call.offset = call.ahead)
    ⟨within_ofLines number stack lines, List.forall_mem_nil _⟩ ?_ configs
  · exact hrun.2 call h
  · rintro history b config call next ⟨hwithin, hhistory⟩ hcall
    obtain ⟨line, others, reading, hleft, -, hreading, rfl, rfl⟩ := exists_left_of_call? hcall
    have hsome : ∀ line' ∈ line :: others, line' ∈ b.lines := by
      rw [← hleft]
      exact fun line' h => (List.dropWhile_suffix _).mem h
    obtain ⟨hline, hothers⟩ := List.forall_mem_cons.mp hsome
    obtain ⟨i, text, hi, hnumber, hrest⟩ := hwithin line hline
    refine ⟨List.forall_mem_cons.mpr ⟨⟨i, text, hi, hnumber, ?_⟩, ?_⟩, ?_⟩
    · have hle := length_readNext_le config.rules b.stack line.rest
      rw [← hreading] at hle
      show text.drop (line.offset + (line.rest.take reading.length).length) =
        line.rest.drop reading.length
      rw [List.length_take_of_le hle, ← List.drop_drop, hrest]
    · exact fun line' hline' => hwithin line' (hothers line' hline')
    · exact List.forall_mem_append.mpr ⟨hhistory,
        List.forall_mem_singleton.mpr ⟨i, text, hi, hnumber, hrest⟩⟩

end Bookmark

end ChipHighlight
