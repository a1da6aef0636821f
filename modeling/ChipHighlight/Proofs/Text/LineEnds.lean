import ChipHighlight.Text.Lines

/-!
# Line ends

`linesOf` makes two passes over a document before it cuts it: one that joins the
pairs, one that turns the returns that are left into feeds.  `plainEnds` is the same in
one pass that looks at each line end once (`feedReturns_joinPairs`).

Cutting at the feeds and joining with a feed undo each other: any text is its pieces
joined (`join_cutAtFeeds`), and lines that hold no feed are the pieces of their join
(`cutAtFeeds_join`).  So the lines of a document joined with feeds are the document
with plain ends, and lines without a feed or a return are the lines of their join.
-/

namespace ChipHighlight

/-- The text with every line end, be it CRLF, CR or LF, written as one line feed. -/
def plainEnds : Text → Text
  | [] => []
  | '\r' :: '\n' :: t => '\n' :: plainEnds t
  | '\r' :: t => '\n' :: plainEnds t
  | c :: t => c :: plainEnds t

theorem feedReturns_joinPairs (t : Text) : feedReturns (joinPairs t) = plainEnds t := by
  fun_induction plainEnds t with
  | case1 => rfl
  | case2 t ih =>
    rw [joinPairs, feedReturns, List.map_cons, if_neg (by decide)]
    exact congrArg ('\n' :: ·) ih
  | case3 t h ih =>
    rw [joinPairs, feedReturns, List.map_cons, if_pos rfl]
    · exact congrArg ('\n' :: ·) ih
    · intro t' _ ht
      exact h t' ht
  | case4 c t h1 h2 ih =>
    rw [joinPairs, feedReturns, List.map_cons, if_neg h2]
    · exact congrArg (c :: ·) ih
    · intro t' hc
      exact absurd hc h2

/-! ### Joining and cutting -/

namespace Text

theorem join_cons (separator t : Text) {rest : List Text} (h : rest ≠ []) :
    join separator (t :: rest) = t ++ separator ++ join separator rest := by
  cases rest with
  | nil => exact absurd rfl h
  | cons u rest => rfl

theorem join_cons_cons (separator t : Text) (c : Char) (rest : List Text) :
    join separator ((c :: t) :: rest) = c :: join separator (t :: rest) := by
  cases rest with
  | nil => rfl
  | cons u rest => rfl

end Text

open Text (join join_cons join_cons_cons)

theorem join_cutAtFeeds (t : Text) : join ['\n'] (cutAtFeeds t) = t := by
  induction t with
  | nil => rfl
  | cons c t ih =>
    rw [cutAtFeeds]
    split
    · rename_i hc
      rw [join_cons _ _ (cutAtFeeds_ne_nil t), ih, hc]
      rfl
    · split
      · rename_i h
        exact absurd h (cutAtFeeds_ne_nil t)
      · rename_i line rest h
        rw [join_cons_cons, ← h, ih]

theorem cutAtFeeds_of_not_mem {t : Text} (h : '\n' ∉ t) : cutAtFeeds t = [t] := by
  induction t with
  | nil => rfl
  | cons c t ih =>
    obtain ⟨hc, ht⟩ := List.ne_and_not_mem_of_not_mem_cons h
    rw [cutAtFeeds, if_neg (Ne.symm hc), ih ht]

theorem cutAtFeeds_append {t : Text} (h : '\n' ∉ t) (u : Text) :
    cutAtFeeds (t ++ '\n' :: u) = t :: cutAtFeeds u := by
  induction t with
  | nil => rw [List.nil_append, cutAtFeeds, if_pos rfl]
  | cons c t ih =>
    obtain ⟨hc, ht⟩ := List.ne_and_not_mem_of_not_mem_cons h
    rw [List.cons_append, cutAtFeeds, if_neg (Ne.symm hc), ih ht]

/-- **Lines without a feed are the pieces of their join.** -/
theorem cutAtFeeds_join {lines : List Text} (hne : lines ≠ []) (h : ∀ line ∈ lines, '\n' ∉ line) :
    cutAtFeeds (join ['\n'] lines) = lines := by
  induction lines with
  | nil => exact absurd rfl hne
  | cons line rest ih =>
    obtain ⟨hline, hrest⟩ := List.forall_mem_cons.mp h
    cases rest with
    | nil => exact cutAtFeeds_of_not_mem hline
    | cons next rest =>
      rw [join_cons _ _ (by simp), List.append_assoc, List.singleton_append,
        cutAtFeeds_append hline, ih (by simp) hrest]

/-! ### Texts without a return -/

theorem plainEnds_of_not_mem {t : Text} (h : '\r' ∉ t) : plainEnds t = t := by
  fun_induction plainEnds t with
  | case1 => rfl
  | case2 t ih => exact absurd List.mem_cons_self h
  | case3 t _ ih => exact absurd List.mem_cons_self h
  | case4 c t _ _ ih => rw [ih (List.not_mem_of_not_mem_cons h)]

theorem not_mem_join {c : Char} {separator : Text} {lines : List Text} (hs : c ∉ separator)
    (h : ∀ line ∈ lines, c ∉ line) : c ∉ join separator lines := by
  induction lines with
  | nil => exact List.not_mem_nil
  | cons line rest ih =>
    obtain ⟨hline, hrest⟩ := List.forall_mem_cons.mp h
    cases rest with
    | nil => exact hline
    | cons next rest =>
      rw [join_cons _ _ (by simp)]
      simp only [List.mem_append, not_or]
      exact ⟨⟨hline, hs⟩, ih hrest⟩

/-! ### What no line end belongs to -/

theorem filter_join {p : Char → Bool} {separator : Text} (h : separator.filter p = [])
    (lines : List Text) : (join separator lines).filter p = lines.flatten.filter p := by
  induction lines with
  | nil => rfl
  | cons line rest ih =>
    cases rest with
    | nil => rw [join, List.flatten_singleton]
    | cons next rest =>
      rw [List.flatten_cons, List.filter_append, ← ih, join_cons _ _ (List.cons_ne_nil next rest),
        List.filter_append, List.filter_append, h, List.append_nil]

theorem filter_plainEnds {p : Char → Bool} (hreturn : p '\r' = false) (hfeed : p '\n' = false)
    (t : Text) : (plainEnds t).filter p = t.filter p := by
  have hskip : ∀ {c : Char}, p c = false → ∀ u : Text, (c :: u).filter p = u.filter p :=
    fun hc u => List.filter_cons_of_neg (Bool.not_eq_true _ ▸ hc)
  fun_induction plainEnds t with
  | case1 => rfl
  | case2 t ih => rw [hskip hfeed, ih, hskip hreturn, hskip hfeed]
  | case3 t _ ih => rw [hskip hfeed, ih, hskip hreturn]
  | case4 c t _ _ ih => rw [List.filter_cons, List.filter_cons, ih]

/-! ### The lines of a document -/

/-- **The lines of a document joined with feeds are the document with plain ends.** -/
theorem join_linesOf (source : Text) : join ['\n'] (linesOf source) = plainEnds source := by
  rw [linesOf, join_cutAtFeeds, feedReturns_joinPairs]

/-- **A class that no line end belongs to** has the same members in the lines as in the
document. -/
theorem filter_flatten_linesOf {p : Char → Bool} (hreturn : p '\r' = false)
    (hfeed : p '\n' = false) (source : Text) :
    (linesOf source).flatten.filter p = source.filter p := by
  have hfeeds : ['\n'].filter p = [] := by rw [List.filter_cons, hfeed]; rfl
  rw [← filter_join hfeeds, join_linesOf, filter_plainEnds hreturn hfeed]

theorem linesOf_join {lines : List Text} (hne : lines ≠ [])
    (h : ∀ line ∈ lines, '\r' ∉ line ∧ '\n' ∉ line) : linesOf (join ['\n'] lines) = lines := by
  have hreturn : '\r' ∉ join ['\n'] lines := not_mem_join (by decide) fun line hl => (h line hl).1
  rw [linesOf, feedReturns_joinPairs, plainEnds_of_not_mem hreturn,
    cutAtFeeds_join hne fun line hl => (h line hl).2]

end ChipHighlight
