import Mathlib.Data.List.Induction
import ChipHighlight.Proofs.Text.LineEnds

/-!
# Splitting lines in one pass

`linesOf` goes over a document three times.  A `Splitter` goes over it once, from left to
right, and of what it has read it keeps the lines, the line that is not ended, and one bit:
whether the last character was a return.  A return ends the line at once, and the bit is
there for the feed that may follow it, which then ends nothing.

That the two agree is shown for a splitter at any point of its way (`lines_run`): behind a
return it goes on as if a feed there were not in the text, and otherwise it goes on with
the lines of what is left, the first of which continues the line that it is in.

The line ends of a text are found by looking at one character and its neighbours
(`lineEndAt?`).  There is one line more than there are line ends, and the lines with the line
ends between them are the text (`woven_linesOf`).
-/

namespace ChipHighlight

/-! ### The lines, character by character -/

/-- The text behind a return without the feed that makes a pair with it. -/
def dropFeed : Text → Text
  | '\n' :: t => t
  | t => t

theorem dropFeed_of_head? {t : Text} (h : t.head? ≠ some '\n') : dropFeed t = t := by
  unfold dropFeed
  split
  · simp at h
  · rfl

theorem feed_cases (t : Text) : (∃ rest, t = '\n' :: rest) ∨ t.head? ≠ some '\n' := by
  by_cases h : t.head? = some '\n'
  · exact Or.inl (List.head?_eq_some_iff.mp h)
  · exact Or.inr h

theorem linesOf_eq (source : Text) : linesOf source = cutAtFeeds (plainEnds source) := by
  rw [linesOf, feedReturns_joinPairs]

@[simp] theorem linesOf_nil : linesOf [] = [[]] := rfl

theorem linesOf_feed (t : Text) : linesOf ('\n' :: t) = [] :: linesOf t := by
  simp [linesOf_eq, plainEnds, cutAtFeeds]

theorem linesOf_return (t : Text) : linesOf ('\r' :: t) = [] :: linesOf (dropFeed t) := by
  rcases feed_cases t with ⟨rest, rfl⟩ | hhead
  · simp [linesOf_eq, plainEnds, cutAtFeeds, dropFeed]
  · rw [dropFeed_of_head? hhead, linesOf_eq, linesOf_eq, plainEnds, cutAtFeeds, if_pos rfl]
    rintro rest rfl
    exact hhead rfl

theorem linesOf_cons {c : Char} (hreturn : c ≠ '\r') (hfeed : c ≠ '\n') (t : Text) :
    linesOf (c :: t) = (linesOf t).modifyHead (c :: ·) := by
  rw [linesOf_eq, linesOf_eq, plainEnds, cutAtFeeds, if_neg hfeed]
  · cases h : cutAtFeeds (plainEnds t) with
    | nil => exact absurd h (cutAtFeeds_ne_nil _)
    | cons line rest => rfl
  · intro _ hc _
    exact hreturn hc
  · exact hreturn

/-- An induction that meets a return together with the feed behind it. -/
theorem lines_induction {motive : Text → Prop} (nil : motive [])
    (feed : ∀ t, motive t → motive ('\n' :: t))
    (ret : ∀ t, motive (dropFeed t) → motive ('\r' :: t))
    (other : ∀ c t, c ≠ '\r' → c ≠ '\n' → motive t → motive (c :: t)) (t : Text) : motive t := by
  fun_induction plainEnds t with
  | case1 => exact nil
  | case2 t ih => exact ret ('\n' :: t) ih
  | case3 t h ih =>
    rcases feed_cases t with ⟨rest, hrest⟩ | hhead
    · exact absurd hrest (h rest)
    · exact ret t (by rwa [dropFeed_of_head? hhead])
  | case4 c t _ hreturn ih =>
    by_cases hfeed : c = '\n'
    · rw [hfeed]
      exact feed t ih
    · exact other c t hreturn hfeed ih

theorem not_mem_of_mem_linesOf {source line : Text} (h : line ∈ linesOf source) :
    '\r' ∉ line ∧ '\n' ∉ line := by
  induction source using lines_induction generalizing line with
  | nil => simp_all
  | feed t ih =>
    rw [linesOf_feed, List.mem_cons] at h
    rcases h with rfl | h
    · simp
    · exact ih h
  | ret t ih =>
    rw [linesOf_return, List.mem_cons] at h
    rcases h with rfl | h
    · simp
    · exact ih h
  | other c t hreturn hfeed ih =>
    rw [linesOf_cons hreturn hfeed] at h
    cases hlines : linesOf t with
    | nil => exact absurd hlines (linesOf_ne_nil t)
    | cons first rest =>
      rw [hlines] at ih h
      rcases List.mem_cons.mp h with rfl | h
      · obtain ⟨hr, hf⟩ := ih List.mem_cons_self
        simp [hr, hf, Ne.symm hreturn, Ne.symm hfeed]
      · exact ih (List.mem_cons_of_mem _ h)

/-! ### One pass -/

/-- A splitter on its way: the lines that are ended, the line that is not, and whether the
last character was a return. -/
structure Splitter where
  ended : List Text := []
  line : Text := []
  behindReturn : Bool := false

namespace Splitter

def endLine (s : Splitter) (behindReturn : Bool) : Splitter :=
  ⟨s.ended ++ [s.line], [], behindReturn⟩

/-- **One character.**  A feed behind a return is the rest of that line end. -/
def next (s : Splitter) (c : Char) : Splitter :=
  if c = '\r' then s.endLine true
  else if c = '\n' then
    if s.behindReturn then { s with behindReturn := false } else s.endLine false
  else { s with line := s.line ++ [c], behindReturn := false }

def run (s : Splitter) (t : Text) : Splitter := t.foldl next s

def lines (s : Splitter) : List Text := s.ended ++ [s.line]

@[simp] theorem run_nil (s : Splitter) : s.run [] = s := rfl

@[simp] theorem run_cons (s : Splitter) (c : Char) (t : Text) :
    s.run (c :: t) = (s.next c).run t := rfl

theorem run_append (s : Splitter) (t u : Text) : s.run (t ++ u) = (s.run t).run u :=
  List.foldl_append

@[simp] theorem lines_endLine (s : Splitter) (b : Bool) : (s.endLine b).lines = s.lines ++ [[]] :=
  rfl

/-- What is ahead of a splitter: a feed behind a return is not. -/
def ahead (s : Splitter) (t : Text) : Text := if s.behindReturn then dropFeed t else t

theorem ahead_of_ne {s : Splitter} {c : Char} (h : c ≠ '\n') (t : Text) :
    s.ahead (c :: t) = c :: t := by
  have hhead : (c :: t).head? ≠ some '\n' := by simpa using h
  rw [ahead, dropFeed_of_head? hhead, ite_self]

theorem modifyHead_nil_append (lines : List Text) : lines.modifyHead ([] ++ ·) = lines := by
  cases lines <;> rfl

/-- **A splitter on its way** adds the lines of what is ahead to those that it has; the first of
them continues the line that it is in. -/
theorem lines_run (s : Splitter) (t : Text) :
    (s.run t).lines = s.ended ++ (linesOf (s.ahead t)).modifyHead (s.line ++ ·) := by
  induction t generalizing s with
  | nil => cases h : s.behindReturn <;> simp [ahead, h, dropFeed, lines]
  | cons c t ih =>
    have hended (b : Bool) : ((s.endLine b).run t).lines =
        s.ended ++ s.line :: linesOf ((s.endLine b).ahead t) := by
      rw [ih, endLine, modifyHead_nil_append]
      simp
    rw [run_cons]
    by_cases hreturn : c = '\r'
    · subst hreturn
      rw [ahead_of_ne (by decide), linesOf_return, next, if_pos rfl, hended]
      simp [endLine, ahead]
    · by_cases hfeed : c = '\n'
      · subst hfeed
        cases h : s.behindReturn with
        | true => simp [next, h, ih, ahead, dropFeed]
        | false =>
          have hnext : s.next '\n' = s.endLine false := by simp [next, h]
          rw [hnext, hended]
          simp [endLine, ahead, h, linesOf_feed]
      · rw [ahead_of_ne hfeed, linesOf_cons hreturn hfeed, next, if_neg hreturn, if_neg hfeed, ih]
        simp [ahead, Function.comp_def]

theorem lines_run_new (source : Text) : (run {} source).lines = linesOf source := by
  rw [lines_run, modifyHead_nil_append]
  rfl

theorem behindReturn_run (t : Text) :
    (run {} t).behindReturn = true ↔ t.getLast? = some '\r' := by
  induction t using List.reverseRecOn with
  | nil => simp
  | append_singleton t c _ =>
    rw [run_append, run_cons, run_nil, List.getLast?_concat, next]
    by_cases hreturn : c = '\r'
    · simp [hreturn, endLine]
    · by_cases hfeed : c = '\n'
      · cases (run {} t).behindReturn <;> simp [hfeed, endLine]
      · simp [hreturn, hfeed]

/-- **A feed behind a text** ends a line, unless it belongs to a return. -/
theorem lines_next_feed (s : Splitter) (t : Text) :
    ((s.next '\n').run t).lines =
      if s.behindReturn then s.ended ++ (linesOf t).modifyHead (s.line ++ ·)
      else s.lines ++ linesOf t := by
  rw [lines_run]
  cases h : s.behindReturn with
  | true => simp [next, h, ahead]
  | false =>
    have hnext : s.next '\n' = s.endLine false := by simp [next, h]
    rw [hnext, endLine, modifyHead_nil_append]
    rfl

end Splitter

/-- **Cutting a document at a feed** cuts its lines, unless a return stands in front of it. -/
theorem linesOf_append_feed_iff (s : Text) :
    (∀ t, linesOf (s ++ '\n' :: t) = linesOf s ++ linesOf t) ↔ s.getLast? ≠ some '\r' := by
  have hcut (t : Text) :
      linesOf (s ++ '\n' :: t) = (((Splitter.run {} s).next '\n').run t).lines := by
    rw [← Splitter.lines_run_new, Splitter.run_append, Splitter.run_cons]
  have hbit := Splitter.behindReturn_run s
  constructor
  · intro h hlast
    have hlines := h []
    rw [hcut, Splitter.lines_next_feed, if_pos (hbit.mpr hlast)] at hlines
    have hlength := congrArg List.length hlines
    rw [← Splitter.lines_run_new s, Splitter.lines] at hlength
    simp at hlength
  · intro hlast t
    rw [hcut, Splitter.lines_next_feed, if_neg fun hb => hlast (hbit.mp hb), Splitter.lines_run_new]

/-! ### Line ends -/

inductive LineEnd
  | pair
  | ret
  | feed
deriving DecidableEq, Repr

def LineEnd.text : LineEnd → Text
  | pair => ['\r', '\n']
  | ret => ['\r']
  | feed => ['\n']

/-- **The line end that begins at a place**: a return with a feed behind it, a return without,
or a feed with no return in front of it. -/
def lineEndAt? (t : Text) (i : Nat) : Option LineEnd :=
  if t[i]? = some '\r' then some (if t[i + 1]? = some '\n' then .pair else .ret)
  else if t[i]? = some '\n' ∧ ¬ (0 < i ∧ t[i - 1]? = some '\r') then some .feed
  else none

def lineEnds (t : Text) : List LineEnd := (List.range t.length).filterMap (lineEndAt? t)

/-- Lines with line ends between them. -/
def woven : List Text → List LineEnd → Text
  | line :: lines, e :: ends => line ++ e.text ++ woven lines ends
  | lines, _ => lines.flatten

/-- A character in front of a text hides no line end in it, but for a return in front of a feed. -/
theorem lineEndAt?_succ {c : Char} {t : Text} {i : Nat}
    (h : c = '\r' → t[i]? = some '\n' → 0 < i) :
    lineEndAt? (c :: t) (i + 1) = lineEndAt? t i := by
  have hbefore : (t[i]? = some '\n' ∧ ¬ (0 < i + 1 ∧ (c :: t)[i]? = some '\r')) ↔
      (t[i]? = some '\n' ∧ ¬ (0 < i ∧ t[i - 1]? = some '\r')) := by
    refine and_congr_right fun hfeed => not_congr ?_
    cases i with
    | zero =>
      have hc : c ≠ '\r' := fun hc => absurd (h hc hfeed) (Nat.lt_irrefl 0)
      simp [hc]
    | succ i => simp
  simp only [lineEndAt?, List.getElem?_cons_succ, Nat.add_sub_cancel, hbefore]

theorem filterMap_range_succ {α : Type} (f : Nat → Option α) (n : Nat) :
    (List.range (n + 1)).filterMap f =
      (f 0).toList ++ (List.range n).filterMap fun i => f (i + 1) := by
  rw [List.range_succ_eq_map, List.filterMap_cons, List.filterMap_map]
  cases f 0 <;> rfl

theorem lineEnds_cons {c : Char} {t : Text} (h : c = '\r' → t.head? ≠ some '\n') :
    lineEnds (c :: t) = (lineEndAt? (c :: t) 0).toList ++ lineEnds t := by
  have hsucc : (fun i => lineEndAt? (c :: t) (i + 1)) = lineEndAt? t := by
    funext i
    refine lineEndAt?_succ fun hc hfeed => ?_
    cases i with
    | zero => exact absurd (List.head?_eq_getElem?.trans hfeed) (h hc)
    | succ i => exact Nat.succ_pos i
  rw [lineEnds, List.length_cons, filterMap_range_succ, hsucc]
  rfl

@[simp] theorem lineEnds_nil : lineEnds [] = [] := rfl

theorem lineEnds_feed (t : Text) : lineEnds ('\n' :: t) = .feed :: lineEnds t := by
  rw [lineEnds_cons fun h => absurd h (by decide)]
  simp [lineEndAt?]

theorem lineEnds_of_ne {c : Char} (hreturn : c ≠ '\r') (hfeed : c ≠ '\n') (t : Text) :
    lineEnds (c :: t) = lineEnds t := by
  rw [lineEnds_cons fun h => absurd h hreturn]
  simp [lineEndAt?, hreturn, hfeed]

theorem lineEnds_pair (t : Text) : lineEnds ('\r' :: '\n' :: t) = .pair :: lineEnds t := by
  have hpair : lineEndAt? ('\r' :: '\n' :: t) 0 = some .pair := by simp [lineEndAt?]
  have hrest : lineEndAt? ('\r' :: '\n' :: t) (0 + 1) = none := by simp [lineEndAt?]
  have hsucc : (fun i => lineEndAt? ('\r' :: '\n' :: t) (i + 1 + 1)) = lineEndAt? t := by
    funext i
    rw [lineEndAt?_succ fun _ _ => Nat.succ_pos i, lineEndAt?_succ fun h => absurd h (by decide)]
  rw [lineEnds, List.length_cons, List.length_cons, filterMap_range_succ, filterMap_range_succ,
    hpair, hrest, hsucc]
  rfl

/-- The line end that a return in front of a text begins. -/
def LineEnd.ofReturn (t : Text) : LineEnd := if t.head? = some '\n' then pair else ret

theorem lineEnds_return (t : Text) :
    lineEnds ('\r' :: t) = .ofReturn t :: lineEnds (dropFeed t) := by
  rcases feed_cases t with ⟨rest, rfl⟩ | hhead
  · exact lineEnds_pair rest
  · rw [lineEnds_cons fun _ => hhead, dropFeed_of_head? hhead, LineEnd.ofReturn, if_neg hhead]
    rw [List.head?_eq_getElem?] at hhead
    simp [lineEndAt?, hhead]

theorem text_ofReturn (t : Text) : (LineEnd.ofReturn t).text ++ dropFeed t = '\r' :: t := by
  rcases feed_cases t with ⟨rest, rfl⟩ | hhead
  · rfl
  · rw [dropFeed_of_head? hhead, LineEnd.ofReturn, if_neg hhead]
    rfl

/-! ### Lines with line ends between them -/

theorem length_linesOf (source : Text) :
    (linesOf source).length = (lineEnds source).length + 1 := by
  induction source using lines_induction with
  | nil => rfl
  | feed t ih => rw [linesOf_feed, lineEnds_feed, List.length_cons, List.length_cons, ih]
  | ret t ih => rw [linesOf_return, lineEnds_return, List.length_cons, List.length_cons, ih]
  | other c t hreturn hfeed ih =>
    rw [linesOf_cons hreturn hfeed, lineEnds_of_ne hreturn hfeed, List.length_modifyHead, ih]

theorem woven_modifyHead {lines : List Text} (hne : lines ≠ []) (c : Char) (ends : List LineEnd) :
    woven (lines.modifyHead (c :: ·)) ends = c :: woven lines ends := by
  cases lines with
  | nil => exact absurd rfl hne
  | cons line rest => cases ends <;> rfl

/-- **A document is its lines with its line ends between them.** -/
theorem woven_linesOf (source : Text) : woven (linesOf source) (lineEnds source) = source := by
  induction source using lines_induction with
  | nil => rfl
  | feed t ih => rw [linesOf_feed, lineEnds_feed, woven, ih]; rfl
  | ret t ih => rw [linesOf_return, lineEnds_return, woven, ih, List.nil_append, text_ofReturn]
  | other c t hreturn hfeed ih =>
    rw [linesOf_cons hreturn hfeed, lineEnds_of_ne hreturn hfeed,
      woven_modifyHead (linesOf_ne_nil t), ih]

/-! ### Joining lines -/

theorem linesOf_append_of_not_mem {line : Text} (h : '\r' ∉ line ∧ '\n' ∉ line) (t : Text) :
    linesOf (line ++ t) = (linesOf t).modifyHead (line ++ ·) := by
  induction line with
  | nil => exact (Splitter.modifyHead_nil_append _).symm
  | cons c line ih =>
    obtain ⟨hreturn, hline⟩ := List.ne_and_not_mem_of_not_mem_cons h.1
    obtain ⟨hfeed, hrest⟩ := List.ne_and_not_mem_of_not_mem_cons h.2
    rw [List.cons_append, linesOf_cons hreturn.symm hfeed.symm, ih ⟨hline, hrest⟩]
    simp [Function.comp_def]

theorem linesOf_text_append {e : LineEnd} {t : Text} (h : e = .ret → '\n' ∉ t) :
    linesOf (e.text ++ t) = [] :: linesOf t := by
  cases e with
  | pair => exact linesOf_return _
  | feed => exact linesOf_feed t
  | ret =>
    have hhead : t.head? ≠ some '\n' := fun hhead => h rfl (List.mem_of_head? hhead)
    exact (linesOf_return t).trans (by rw [dropFeed_of_head? hhead])

/-- **Lines joined with any line end** are the lines of their join. -/
theorem linesOf_join_lineEnd (e : LineEnd) {lines : List Text} (hne : lines ≠ [])
    (h : ∀ line ∈ lines, '\r' ∉ line ∧ '\n' ∉ line) : linesOf (Text.join e.text lines) = lines := by
  induction lines with
  | nil => exact absurd rfl hne
  | cons line rest ih =>
    obtain ⟨hline, hrest⟩ := List.forall_mem_cons.mp h
    by_cases hlast : rest = []
    · subst hlast
      simpa [Text.join] using linesOf_append_of_not_mem hline []
    · have hret : e = .ret → '\n' ∉ Text.join e.text rest := by
        rintro rfl
        exact not_mem_join (by decide) fun line hl => (hrest line hl).2
      rw [Text.join_cons _ _ hlast, List.append_assoc, linesOf_append_of_not_mem hline,
        linesOf_text_append hret, ih hlast hrest]
      simp

/-- **The lines of a document are those of one pass over it.**  There is one line more than line
ends, no line holds one, and with the line ends between them the lines are the document.  So lines
without returns and feeds come back from their join with any line end; and a document can be cut
at a feed exactly if no return stands in front of it. -/
theorem linesOf_one_pass :
    (∀ source, linesOf source = (Splitter.run {} source).lines ∧
      linesOf source ≠ [] ∧ (linesOf source).length = (lineEnds source).length + 1 ∧
      woven (linesOf source) (lineEnds source) = source ∧
      ∀ line ∈ linesOf source, '\r' ∉ line ∧ '\n' ∉ line) ∧
    (∀ (e : LineEnd) (lines : List Text), lines ≠ [] →
      (∀ line ∈ lines, '\r' ∉ line ∧ '\n' ∉ line) → linesOf (Text.join e.text lines) = lines) ∧
    ∀ s, (∀ t, linesOf (s ++ '\n' :: t) = linesOf s ++ linesOf t) ↔ s.getLast? ≠ some '\r' := by
  refine ⟨fun source => ?_, fun e lines hne h => linesOf_join_lineEnd e hne h,
    linesOf_append_feed_iff⟩
  exact ⟨(Splitter.lines_run_new source).symm, linesOf_ne_nil source, length_linesOf source,
    woven_linesOf source, fun _ => not_mem_of_mem_linesOf⟩

/-- Lines joined with returns, of which one in the middle is empty. -/
theorem lines_between_returns :
    let lines := ["a:".toList, [], "c4".toList]
    lines ≠ [] ∧ (∀ line ∈ lines, '\r' ∉ line ∧ '\n' ∉ line) ∧
      linesOf "a:\r\rc4".toList = lines := by
  intro lines
  have hne : lines ≠ [] := by decide
  have hfree : ∀ line ∈ lines, '\r' ∉ line ∧ '\n' ∉ line := by decide
  exact ⟨hne, hfree, linesOf_one_pass.2.1 .ret lines hne hfree⟩

example : linesOf "a\r\r\nb\n\rc".toList =
    ["a".toList, [], "b".toList, [], "c".toList] := by decide

end ChipHighlight
