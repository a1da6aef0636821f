import ChipHighlight.Proofs.Cursor.Stepwise

/-!
# Handling a cursor

A host that leaves the places of a cursor to the cursor can go on along the line, begin a span
where the cursor is, and go back within the span.  Then the cursor stays inside its line
(`Inside`), and inside the line every action succeeds (`Inside.exists_comes`).

`Comes` says what an action comes to there.  One that takes characters passes over a text that
stands ahead (`Passes`): the cursor is behind it afterwards, and the text of the span has grown by
it, so that a host can read back what a reading took.  What is taken is the next character if it
is wanted (`TakesOne`), or all that are wanted up to the first that is not (`TakesRun`).

All this moves a cursor in three ways only (`Comes.cursor_cases`).  Each keeps it inside, and
so does any number of turns, with any stack beside the cursor and any rules in each of them
(`visits_stay_inside`).
-/

namespace ChipHighlight.Cursor

variable {c c' : Cursor} {taken : Text}

/-! ### Cursors inside their line -/

/-- **A cursor inside its line**: its span begins in the line, and its place is not before that
beginning and not behind the end. -/
structure Inside (c : Cursor) : Prop where
  start_nonneg : 0 ≤ c.spanStart
  start_le : c.spanStart ≤ c.place
  place_le : c.place ≤ c.line.length

namespace Inside

theorem ofLine (line : Text) : (Cursor.ofLine line).Inside where
  start_nonneg := Int.le_refl 0
  start_le := Int.le_refl 0
  place_le := Int.natCast_nonneg _

theorem place_nonneg (h : c.Inside) : 0 ≤ c.place := Int.le_trans h.start_nonneg h.start_le

theorem ahead (h : c.Inside) : Ahead c (c.line.drop c.place.toNat) :=
  ⟨rest?_of_nonneg h.place_nonneg, h.place_le⟩

theorem next_eq (h : c.Inside) :
    Index.get? c.line c.place = (c.line.drop c.place.toNat).head? := by
  have hplace : Index.fromStart c.line.length c.place = c.place.toNat := by
    have hpos := h.place_nonneg
    rw [Index.fromStart, if_neg (by omega), Int.toNat_of_nonneg hpos]
  rw [get?_eq hplace, List.head?_drop]

theorem drop_eq_nil_iff (h : c.Inside) :
    c.line.drop c.place.toNat = [] ↔ c.place = c.line.length := by
  have hpos := h.place_nonneg
  have hle := h.place_le
  rw [List.drop_eq_nil_iff]
  omega

theorem spanText_eq (h : c.Inside) :
    c.spanText = (c.line.drop c.spanStart.toNat).take (c.place - c.spanStart).toNat := by
  have hslice := slice_add c.line h.start_nonneg (c.place - c.spanStart).toNat
  have hplace : c.spanStart + ((c.place - c.spanStart).toNat : Int) = c.place := by
    have hle := h.start_le
    omega
  rwa [hplace] at hslice

theorem length_spanText (h : c.Inside) :
    (c.spanText.length : Int) = c.place - c.spanStart := by
  obtain ⟨hpos, hstart, hle⟩ := h
  rw [spanText_eq ⟨hpos, hstart, hle⟩, List.length_take, List.length_drop]
  omega

/-! ### The three ways to move -/

theorem advance (h : c.Inside) {n : Nat} (hn : n ≤ (c.line.drop c.place.toNat).length) :
    (c.advance n).Inside := by
  have hplace := h.ahead.place_add
  have hstart := h.start_le
  refine ⟨h.start_nonneg, ?_, ?_⟩
  · show c.spanStart ≤ c.place + n
    omega
  · show c.place + n ≤ c.line.length
    omega

theorem beginSpan (h : c.Inside) : c.beginSpan.Inside :=
  ⟨h.place_nonneg, Int.le_refl _, h.place_le⟩

theorem retreat (h : c.Inside) {n : Int} (hn : 0 ≤ n) : (c.retreat n).Inside := by
  have hstart := h.start_le
  have hle := h.place_le
  refine ⟨h.start_nonneg, Int.le_max_left _ _, ?_⟩
  show max c.spanStart (c.place - n) ≤ c.line.length
  omega

end Inside

/-! ### Passing over a text -/

/-- **Passing over a text**: it stands in the line at the place, the cursor is then behind it,
and the text of the span has grown by it. -/
structure Passes (c : Cursor) (taken : Text) (c' : Cursor) : Prop where
  initial : taken <+: c.line.drop c.place.toNat
  cursor_eq : c' = c.advance taken.length
  spanText_eq : c'.spanText = c.spanText ++ taken

theorem Inside.passes (h : c.Inside) (hinitial : taken <+: c.line.drop c.place.toNat) :
    c.Passes taken (c.advance taken.length) := by
  refine ⟨hinitial, rfl, ?_⟩
  let span := (c.place - c.spanStart).toNat
  have hstart := h.start_le
  have hnonneg := h.start_nonneg
  have hspan : ((c.advance taken.length).place - (c.advance taken.length).spanStart).toNat =
      span + taken.length := by
    show (c.place + taken.length - c.spanStart).toNat = _
    omega
  -- the old span ends where the text begins, so the two are neighbours in the line
  have hbehind : c.spanStart.toNat + span = c.place.toNat := by omega
  rw [(h.advance hinitial.length_le).spanText_eq, hspan, h.spanText_eq]
  show (c.line.drop c.spanStart.toNat).take (span + taken.length) = _
  rw [List.take_add, List.drop_drop, hbehind, ← List.prefix_iff_eq_take.mp hinitial]

theorem Inside.passes_take (h : c.Inside) {n : Nat}
    (hn : n ≤ (c.line.drop c.place.toNat).length) :
    c.Passes ((c.line.drop c.place.toNat).take n) (c.advance n) := by
  have hpasses := h.passes (List.take_prefix n (c.line.drop c.place.toNat))
  rwa [List.length_take_of_le hn] at hpasses

theorem Inside.passes_nil (h : c.Inside) : c.Passes [] c := by
  have hpasses := h.passes (List.nil_prefix (l := c.line.drop c.place.toNat))
  rwa [List.length_nil, advance_zero] at hpasses

theorem Passes.inside (h : c.Passes taken c') (hc : c.Inside) : c'.Inside := by
  rw [h.cursor_eq]
  exact hc.advance h.initial.length_le

structure TakesOne (p : Char → Bool) (c : Cursor) (found : Option Char) (c' : Cursor) : Prop where
  found_eq : found = (Index.get? c.line c.place).filter p
  passes : c.Passes found.toList c'

/-- **Passing over all that there is**: `p` holds on what is taken, and not on the character
behind it. -/
structure TakesRun (p : Char → Bool) (c : Cursor) (taken : Text) (c' : Cursor) : Prop where
  matching : ∀ x ∈ taken, p x = true
  maximal : ∀ x ∈ Index.get? c'.line c'.place, p x = false
  passes : c.Passes taken c'

/-! ### What one action comes to -/

/-- What a host can do that leaves the places of a cursor to the cursor. -/
def Action.isOffered : Action → Bool
  | setPlace _ | setSpanStart _ => false
  | retreat n => 0 ≤ n
  | _ => true

/-- **What an action comes to** at a cursor inside its line: the answer, and the desk behind it.
A reading takes nothing only at the end, and made of single steps it comes to the same. -/
inductive Comes (c : Cursor) (stack : Stack) : Action → Answer → Desk → Prop
  | atEnd : Comes c stack .atEnd (.truth (decide (c.place = c.line.length))) ⟨c, stack⟩
  | atStart : Comes c stack .atStart (.truth (decide (c.place = 0))) ⟨c, stack⟩
  | look : Comes c stack .look (.char (Index.get? c.line c.place)) ⟨c, stack⟩
  | take {found : Option Char} {c' : Cursor} : TakesOne (fun _ => true) c found c' →
      Comes c stack .take (.char found) ⟨c', stack⟩
  | takeIf {m : Matcher} {found : Option Char} {c' : Cursor} : TakesOne m.test c found c' →
      Comes c stack (.takeIf m) (.char found) ⟨c', stack⟩
  | takeWhile {m : Matcher} {taken : Text} {c' : Cursor} : TakesRun m.test c taken c' →
      Comes c stack (.takeWhile m) (.truth (decide (taken ≠ []))) ⟨c', stack⟩
  | takeSpace {taken : Text} {c' : Cursor} : TakesRun isSpace c taken c' →
      Comes c stack .takeSpace (.truth (decide (taken ≠ []))) ⟨c', stack⟩
  | toEnd {taken : Text} {c' : Cursor} : c.Passes taken c' → c'.place = c.line.length →
      Comes c stack .toEnd .done ⟨c', stack⟩
  | spanText {t : Text} : t <+: c.line.drop c.spanStart.toNat →
      (t.length : Int) = c.place - c.spanStart → Comes c stack .spanText (.text t) ⟨c, stack⟩
  | beginSpan : Comes c stack .beginSpan .done ⟨{ c with spanStart := c.place }, stack⟩
  | retreat {n : Int} : 0 ≤ n →
      Comes c stack (.retreat n) .done
        ⟨{ c with place := max c.spanStart (c.place - n) }, stack⟩
  | display : Comes c stack .display (.text c.display) ⟨c, stack⟩
  | read {rules : Rules} {style : Option Style} {taken : Text} {c' : Cursor} {next : Stack} :
      c.Passes taken c' → (taken = [] ↔ c.place = c.line.length) →
      readNext rules stack (c.line.drop c.place.toNat) = ⟨style, taken.length, next⟩ →
      Steps.read rules ⟨c, stack⟩ = .ok style ⟨c', next⟩ →
      Comes c stack (.read rules) (.style style) ⟨c', next⟩

theorem Inside.exists_takesOne (h : c.Inside) (p : Char → Bool) (stack : Stack) :
    ∃ found c', TakesOne p c found c' ∧
      Desk.takeIf ⟨c, stack⟩ p = some (.char found, ⟨c', stack⟩) := by
  have hrest := h.ahead.rest
  have hnext := h.next_eq
  cases hahead : c.line.drop c.place.toNat with
  | nil =>
    rw [hahead] at hrest hnext
    refine ⟨none, c, ⟨by rw [hnext]; rfl, h.passes_nil⟩, ?_⟩
    simp only [Desk.takeIf, hrest]
    rfl
  | cons x t =>
    rw [hahead] at hrest hnext
    have hfilter : (Index.get? c.line c.place).filter p = if p x then some x else none := by
      rw [hnext]
      rfl
    by_cases hx : p x = true
    · have hinitial : [x] <+: c.line.drop c.place.toNat := by
        rw [hahead]
        exact List.prefix_append [x] t
      refine ⟨some x, c.advance 1, ⟨by rw [hfilter, if_pos hx], h.passes hinitial⟩, ?_⟩
      simp only [Desk.takeIf, hrest, Option.bind_eq_bind, Option.bind_some, hx, if_true]
      rfl
    · refine ⟨none, c, ⟨by rw [hfilter, if_neg hx], h.passes_nil⟩, ?_⟩
      simp only [Desk.takeIf, hrest, Option.bind_eq_bind, Option.bind_some, hx]
      rfl

theorem Inside.exists_takesRun (h : c.Inside) (p : Char → Bool) (stack : Stack) :
    ∃ taken c', TakesRun p c taken c' ∧
      Desk.takeWhile ⟨c, stack⟩ p = some (.truth (decide (taken ≠ [])), ⟨c', stack⟩) := by
  have hrest := h.ahead.rest
  let ahead := c.line.drop c.place.toNat
  let n := Text.runLength p ahead
  have hle : n ≤ ahead.length := Text.runLength_le p ahead
  have hpasses : c.Passes (ahead.take n) (c.advance n) := h.passes_take hle
  have hbehind : (c.advance n).line.drop (c.advance n).place.toNat = ahead.dropWhile p := by
    have hpos := h.place_nonneg
    have hplace : (c.place + n).toNat = c.place.toNat + n := by omega
    show c.line.drop (c.place + n).toNat = _
    rw [hplace, ← List.drop_drop]
    exact Text.drop_runLength p ahead
  refine ⟨ahead.take n, c.advance n, ⟨?_, ?_, hpasses⟩, ?_⟩
  · exact fun x hx => Text.of_mem_take_runLength hx
  · intro x hx
    rw [(hpasses.inside h).next_eq, hbehind] at hx
    have hother := List.head?_dropWhile_not p ahead
    rwa [Option.mem_def.mp hx] at hother
  · have hsome : 0 < n ↔ ahead.take n ≠ [] := by
      rw [← List.length_pos_iff, List.length_take_of_le hle]
    simp only [Desk.takeWhile, hrest, ← hsome]
    rfl

theorem length_readNext_eq_zero_iff (rules : Rules) (stack : Stack) {t : Text} :
    (readNext rules stack t).length = 0 ↔ t = [] := by
  cases t with
  | nil => exact iff_of_true (by rw [readNext_nil]) rfl
  | cons x t =>
    have hpos := length_readNext_pos rules stack (List.cons_ne_nil x t)
    exact iff_of_false (Nat.ne_of_gt hpos) (List.cons_ne_nil x t)

theorem Inside.exists_read (h : c.Inside) (rules : Rules) (stack : Stack) :
    ∃ answer after, Desk.perform ⟨c, stack⟩ (.read rules) = some (answer, after) ∧
      Comes c stack (.read rules) answer after := by
  let ahead := c.line.drop c.place.toNat
  let reading := readNext rules stack ahead
  have hread : c.read? rules stack = some reading := read?_of_nonneg h.place_nonneg stack
  have hle : reading.length ≤ ahead.length := length_readNext_le rules stack ahead
  have hlen : (ahead.take reading.length).length = reading.length := List.length_take_of_le hle
  refine ⟨_, _, Desk.perform_of_read? hread, .read (h.passes_take hle) ?_ ?_ ?_⟩
  · rw [← h.drop_eq_nil_iff, ← List.length_eq_zero_iff, hlen]
    exact length_readNext_eq_zero_iff rules stack
  · rw [hlen]
  · cases hahead : ahead with
    | nil =>
      have hnothing : reading = ⟨none, 0, stack⟩ := by
        show readNext rules stack ahead = _
        rw [hahead, readNext_nil]
      have hend : c.atEnd = true := atEnd_iff.mpr (Int.le_of_eq (h.drop_eq_nil_iff.mp hahead).symm)
      rw [hnothing, advance_zero]
      exact Steps.read_atEnd hend stack
    | cons x t =>
      have hcons : Ahead c (x :: t) := by
        rw [← hahead]
        exact h.ahead
      exact Steps.read_eq hcons hread

/-- **Every action that is offered succeeds** inside the line, and comes to what it should. -/
theorem Inside.exists_comes (h : c.Inside) (stack : Stack) {action : Action}
    (hoffered : action.isOffered = true) :
    ∃ answer after, Desk.perform ⟨c, stack⟩ action = some (answer, after) ∧
      Comes c stack action answer after := by
  cases action with
  | atEnd =>
    have hend : c.atEnd = decide (c.place = c.line.length) := by
      have hle := h.place_le
      rw [Cursor.atEnd, decide_eq_decide]
      omega
    exact ⟨_, _, congrArg (fun b => some (Answer.truth b, (⟨c, stack⟩ : Desk))) hend, .atEnd⟩
  | atStart => exact ⟨_, _, rfl, .atStart⟩
  | look =>
    refine ⟨_, _, ?_, .look⟩
    simp only [Desk.perform, Desk.look, h.ahead.rest, h.next_eq]
    rfl
  | take =>
    obtain ⟨found, c', htakes, hperform⟩ := h.exists_takesOne (fun _ => true) stack
    exact ⟨_, _, hperform, .take htakes⟩
  | takeIf m =>
    obtain ⟨found, c', htakes, hperform⟩ := h.exists_takesOne m.test stack
    exact ⟨_, _, hperform, .takeIf htakes⟩
  | takeWhile m =>
    obtain ⟨taken, c', htakes, hperform⟩ := h.exists_takesRun m.test stack
    exact ⟨_, _, hperform, .takeWhile htakes⟩
  | takeSpace =>
    obtain ⟨taken, c', htakes, hperform⟩ := h.exists_takesRun isSpace stack
    exact ⟨_, _, hperform, .takeSpace htakes⟩
  | toEnd =>
    have hpasses := h.passes (List.prefix_refl _)
    rw [← h.ahead.toEnd_eq] at hpasses
    exact ⟨_, _, rfl, .toEnd hpasses rfl⟩
  | spanText =>
    refine ⟨_, _, rfl, .spanText ?_ h.length_spanText⟩
    show c.spanText <+: _
    rw [h.spanText_eq]
    exact List.take_prefix _ _
  | beginSpan => exact ⟨_, _, rfl, .beginSpan⟩
  | retreat n => exact ⟨_, _, rfl, .retreat (of_decide_eq_true hoffered)⟩
  | setPlace n => cases hoffered
  | setSpanStart n => cases hoffered
  | display => exact ⟨_, _, rfl, .display⟩
  | read rules => exact h.exists_read rules stack

/-- **A cursor moves in three ways**: it passes over a text, begins a span where it is, or goes
back within the span. -/
theorem Comes.cursor_cases {stack : Stack} {action : Action} {answer : Answer} {after : Desk}
    (h : Comes c stack action answer after) (hc : c.Inside) :
    (∃ taken, c.Passes taken after.cursor) ∨ after.cursor = c.beginSpan ∨
      ∃ n, action = .retreat n ∧ 0 ≤ n ∧ after.cursor = c.retreat n := by
  cases h with
  | atEnd | atStart | look | spanText | display => exact Or.inl ⟨[], hc.passes_nil⟩
  | take h | takeIf h => exact Or.inl ⟨_, h.passes⟩
  | takeWhile h | takeSpace h => exact Or.inl ⟨_, h.passes⟩
  | toEnd hpasses => exact Or.inl ⟨_, hpasses⟩
  | read hpasses => exact Or.inl ⟨_, hpasses⟩
  | beginSpan => exact Or.inr (Or.inl rfl)
  | retreat hn => exact Or.inr (Or.inr ⟨_, rfl, hn, rfl⟩)

/-! ### Taking turns -/

/-- What a host does next: it puts a stack beside the cursor, and acts. -/
structure Turn where
  stack : Stack
  action : Action

structure Visit where
  before : Desk
  action : Action
  answer : Answer
  after : Desk

/-- **The visits of a cursor**, one for each turn; there are none if one of the actions fails. -/
def visits? (c : Cursor) : List Turn → Option (List Visit)
  | [] => some []
  | turn :: turns => do
    let (answer, after) ← Desk.perform ⟨c, turn.stack⟩ turn.action
    let rest ← after.cursor.visits? turns
    return ⟨⟨c, turn.stack⟩, turn.action, answer, after⟩ :: rest

namespace Visit

def turn (v : Visit) : Turn := ⟨v.before.stack, v.action⟩

/-- **An orderly visit**: the cursor is inside the same line before and after it, it goes back by
a retreat only and never before its span, the action comes to what it should, and the text of
the span is as long as the cursor is behind its beginning. -/
structure Orderly (v : Visit) : Prop where
  inside_before : v.before.cursor.Inside
  inside_after : v.after.cursor.Inside
  line_eq : v.after.cursor.line = v.before.cursor.line
  backward : v.after.cursor.place < v.before.cursor.place → ∃ n, v.action = .retreat n
  start_le : v.before.cursor.spanStart ≤ v.after.cursor.place
  comes : Comes v.before.cursor v.before.stack v.action v.answer v.after
  length_spanText :
    (v.after.cursor.spanText.length : Int) = v.after.cursor.place - v.after.cursor.spanStart

theorem orderly_of_comes {v : Visit} (hc : v.before.cursor.Inside)
    (h : Comes v.before.cursor v.before.stack v.action v.answer v.after) : v.Orderly := by
  have hstart := hc.start_le
  obtain ⟨taken, hpasses⟩ | hbegins | ⟨n, haction, hn, hback⟩ := h.cursor_cases hc
  · have hafter := hpasses.inside hc
    have hplace : v.after.cursor.place = v.before.cursor.place + taken.length := by
      rw [hpasses.cursor_eq]
      rfl
    refine ⟨hc, hafter, by rw [hpasses.cursor_eq]; rfl, ?_, ?_, h, hafter.length_spanText⟩
    · omega
    · omega
  · have hafter : v.after.cursor.Inside := hbegins ▸ hc.beginSpan
    have hplace : v.after.cursor.place = v.before.cursor.place := by
      rw [hbegins]
      rfl
    refine ⟨hc, hafter, by rw [hbegins]; rfl, ?_, ?_, h, hafter.length_spanText⟩
    · omega
    · omega
  · have hafter : v.after.cursor.Inside := hback ▸ hc.retreat hn
    have hsame : v.after.cursor.spanStart = v.before.cursor.spanStart := by
      rw [hback]
      rfl
    exact ⟨hc, hafter, by rw [hback]; rfl, fun _ => ⟨n, haction⟩, hsame ▸ hafter.start_le, h,
      hafter.length_spanText⟩

end Visit

/-- From inside a line a host can take any turns that are offered, and every visit is orderly. -/
theorem Inside.exists_visits (h : c.Inside) {turns : List Turn}
    (hturns : ∀ turn ∈ turns, turn.action.isOffered = true) :
    ∃ visits, c.visits? turns = some visits ∧ visits.map Visit.turn = turns ∧
      ∀ v ∈ visits, v.before.cursor.line = c.line ∧ v.Orderly := by
  induction turns generalizing c with
  | nil => exact ⟨[], rfl, rfl, List.forall_mem_nil _⟩
  | cons turn turns ih =>
    obtain ⟨hoffered, hturns⟩ := List.forall_mem_cons.mp hturns
    obtain ⟨answer, after, hperform, hcomes⟩ := h.exists_comes turn.stack hoffered
    let visit : Visit := ⟨⟨c, turn.stack⟩, turn.action, answer, after⟩
    have hvisit : visit.Orderly := Visit.orderly_of_comes h hcomes
    obtain ⟨visits, hvisits, hmap, horderly⟩ := ih hvisit.inside_after hturns
    refine ⟨visit :: visits, ?_, ?_, ?_⟩
    · have hrest : after.cursor.visits? turns = some visits := hvisits
      rw [visits?, hperform]
      simp only [Option.bind_eq_bind, Option.bind_some, hrest]
      rfl
    · rw [List.map_cons, hmap]
      rfl
    · refine List.forall_mem_cons.mpr ⟨⟨rfl, hvisit⟩, fun v hv => ?_⟩
      obtain ⟨hline, hv⟩ := horderly v hv
      exact ⟨hline.trans hvisit.line_eq, hv⟩

/-- **A cursor stays inside its line**, whatever turns a host takes from the beginning of the line
on, as long as it sets no place itself and goes back by no less than nothing.  No action fails,
and every visit is orderly. -/
theorem visits_stay_inside (line : Text) (turns : List Turn)
    (hturns : ∀ turn ∈ turns, turn.action.isOffered = true) :
    (ofLine line).Inside ∧
      ∃ visits, (ofLine line).visits? turns = some visits ∧ visits.map Visit.turn = turns ∧
        ∀ v ∈ visits, v.before.cursor.line = line ∧ v.Orderly :=
  ⟨.ofLine line, (Inside.ofLine line).exists_visits hturns⟩

/-- Back too far over a note that is read again, and back over a part of the white space behind
it; from there a reading goes on inside a literal, up to the bracket that closes it. -/
theorem visits_around_white_space :
    let line := "c4  a)b".toList
    let literal : Literal := { opening := ['('], closing := [')'] }
    let turns : List Turn :=
      [⟨[], .take⟩, ⟨[], .takeWhile (.among isDigit)⟩, ⟨[], .retreat 5⟩,
        ⟨[], .read Config.default.rules⟩, ⟨[], .beginSpan⟩, ⟨[], .takeSpace⟩, ⟨[], .retreat 1⟩,
        ⟨[literal], .read Config.default.rules⟩, ⟨[], .spanText⟩, ⟨[], .toEnd⟩, ⟨[], .take⟩]
    (∀ turn ∈ turns, turn.action.isOffered = true) ∧
      ∃ visits, (ofLine line).visits? turns = some visits ∧
        visits.map (·.after.cursor.place) = [1, 2, 0, 2, 2, 4, 3, 6, 6, 7, 7] ∧
        ∀ v ∈ visits, v.before.cursor.line = line ∧ v.Orderly := by
  intro line literal turns
  have hturns : ∀ turn ∈ turns, turn.action.isOffered = true := by decide
  obtain ⟨-, visits, hvisits, -, horderly⟩ := visits_stay_inside line turns hturns
  have hplaces : ((ofLine line).visits? turns).map (·.map (·.after.cursor.place)) =
      some [1, 2, 0, 2, 2, 4, 3, 6, 6, 7, 7] := by decide
  rw [hvisits, Option.map_some, Option.some_inj] at hplaces
  exact ⟨hturns, visits, hvisits, hplaces, horderly⟩

end ChipHighlight.Cursor
