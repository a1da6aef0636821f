import ChipHighlight.Proofs.Calls.Basic

/-!
# Literals that wait outside

What is open outside of some literals has no say in how they are read.  A run of calls
that begins with more open outside makes the same calls, with the same spans in the same
styles, and what is open outside waits below whatever is open inside (`Call.over`).  That
holds up to the call that closes the last literal inside; behind it the run stands at the
same place, and the literals outside are just what they were.
-/

namespace ChipHighlight

def Reading.over (outer : Stack) (reading : Reading) : Reading :=
  { reading with stack := reading.stack ++ outer }

def Call.over (outer : Stack) (call : Call) : Call :=
  { call with front := call.front ++ outer, reading := call.reading.over outer }

def Bookmark.over (outer : Stack) (b : Bookmark) : Bookmark :=
  { b with stack := b.stack ++ outer }

/-- **A reading inside of a literal does not look at what is open outside.** -/
theorem readNext_over (rules : Rules) {inner : Stack} (h : inner ≠ []) (outer : Stack) (t : Text) :
    readNext rules (inner ++ outer) t = (readNext rules inner t).over outer := by
  cases inner with
  | nil => exact absurd rfl h
  | cons a inner =>
    cases t with
    | nil => rfl
    | cons c t =>
      show Literal.reading a (inner ++ outer) (c :: t) =
        (Literal.reading a inner (c :: t)).over outer
      rw [Literal.reading, Literal.read_append_outer]
      rfl

namespace Bookmark

variable {b : Bookmark}

theorem call?_over (h : b.stack ≠ []) (outer : Stack) (config : Config) :
    (b.over outer).call? config =
      (b.call? config).map fun made => (made.1.over outer, made.2.over outer) := by
  have hleft : (b.over outer).left = b.left := rfl
  unfold call?
  rw [hleft]
  split
  · rfl
  · rw [show (b.over outer).stack = b.stack ++ outer from rfl, readNext_over _ h]
    rfl

/-- **A run with more open outside**, as long as something is open inside in front of each
call. -/
theorem calls_over (outer : Stack) {configs : List Config}
    (h : ∀ call ∈ b.calls configs, call.front ≠ []) :
    (b.over outer).calls configs = (b.calls configs).map (Call.over outer) ∧
      (b.over outer).after configs = (b.after configs).over outer := by
  induction configs generalizing b with
  | nil => exact ⟨rfl, rfl⟩
  | cons config configs ih =>
    cases hcall : b.call? config with
    | none =>
      have hleft : (b.over outer).left = [] := (call?_eq_none_iff (b := b)).mp hcall
      rw [calls_of_left_nil hleft, after_of_left_nil hleft, calls_cons_of_none hcall,
        after_cons_of_none hcall]
      exact ⟨rfl, rfl⟩
    | some made =>
      obtain ⟨call, next⟩ := made
      rw [calls_cons_of_some hcall, List.forall_mem_cons] at h
      obtain ⟨hfront, hrest⟩ := h
      rw [(makes_of_call? hcall).front_eq] at hfront
      have hover := call?_over hfront outer config
      rw [hcall] at hover
      obtain ⟨hcalls, hafter⟩ := ih hrest
      rw [calls_cons_of_some hover, after_cons_of_some hover, calls_cons_of_some hcall,
        after_cons_of_some hcall, hcalls, hafter]
      exact ⟨rfl, rfl⟩

end Bookmark

/-- **Literals outside wait until those inside are closed.**  Two runs over the same lines
and under the same configurations, one begun with `inner` open and one with `inner` inside
of `outer`: as long as the first has something open in front of its calls, the second makes
the same ones, at the same places, in the same styles, and with the same open inside of
`outer`.  If the first then has nothing open, the second stands at the same place with
exactly `outer` open, and goes on as a run from there. -/
theorem calls_inside_of_outer (inner outer : Stack) (lines : List OpenLine)
    (configs : List Config) (n : Nat) :
    let alone : Bookmark := ⟨inner, lines⟩
    let framed : Bookmark := ⟨inner ++ outer, lines⟩
    let reached := alone.after (configs.take n)
    (∀ call ∈ (alone.calls configs).take n, call.front ≠ []) →
      (framed.calls configs).take n = ((alone.calls configs).take n).map (Call.over outer) ∧
      framed.after (configs.take n) = ⟨reached.stack ++ outer, reached.lines⟩ ∧
      (reached.stack = [] →
        framed.after (configs.take n) = ⟨outer, reached.lines⟩ ∧
        framed.calls configs = ((alone.calls configs).take n).map (Call.over outer) ++
          Bookmark.calls ⟨outer, reached.lines⟩ (configs.drop n)) := by
  intro alone framed reached hopen
  rw [Bookmark.take_calls] at hopen
  obtain ⟨hcalls, hafter⟩ : framed.calls (configs.take n) =
      (alone.calls (configs.take n)).map (Call.over outer) ∧
      framed.after (configs.take n) = reached.over outer := Bookmark.calls_over outer hopen
  rw [Bookmark.take_calls, Bookmark.take_calls]
  refine ⟨hcalls, hafter, ?_⟩
  intro hclosed
  have hexact : framed.after (configs.take n) = ⟨outer, reached.lines⟩ := by
    rw [hafter, Bookmark.over, hclosed, List.nil_append]
  refine ⟨hexact, ?_⟩
  have hsplit := Bookmark.calls_append framed (configs.take n) (configs.drop n)
  rwa [List.take_append_drop, hcalls, hexact] at hsplit

/-- A literal inside is opened once more, escapes a quote at the end of its line, and is
closed on the next line, where a literal outside waits with its own flag set. -/
theorem calls_inside_of_escaped :
    let literal : Literal := { opening := ['<'], closing := ['>'] }
    let outer : Stack := [{ opening := ['('], closing := [')'], style := none, escaped := true }]
    let lines := Scan.numbered 1 ["a<b\\".toList, ">c>d> e".toList]
    let configs : List Config := [{}, { stringStyle := .comment }, {}, {}]
    let alone : Bookmark := ⟨[literal], lines⟩
    let framed : Bookmark := ⟨[literal] ++ outer, lines⟩
    (∀ call ∈ (alone.calls configs).take 3, call.front ≠ []) ∧
      (alone.after (configs.take 3)).stack = [] ∧
      ((framed.calls configs).take 3).map Call.text =
        ["a<b\\".toList, ">c>".toList, "d>".toList] ∧
      (framed.calls configs).take 3 = ((alone.calls configs).take 3).map (Call.over outer) ∧
      framed.after (configs.take 3) = ⟨outer, (alone.after (configs.take 3)).lines⟩ := by
  intro literal outer lines configs alone framed
  have hopen : ∀ call ∈ (alone.calls configs).take 3, call.front ≠ [] := by decide
  have hclosed : (alone.after (configs.take 3)).stack = [] := by decide
  obtain ⟨hcalls, -, hexact⟩ := calls_inside_of_outer [literal] outer lines configs 3 hopen
  exact ⟨hopen, hclosed, by decide, hcalls, (hexact hclosed).1⟩

end ChipHighlight
