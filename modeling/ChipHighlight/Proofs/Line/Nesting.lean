import ChipHighlight.Config.Basic
import ChipHighlight.Proofs.Line.Readings
import ChipHighlight.Proofs.Literal.Nesting

/-!
# Nested literals over many lines

Where literals of one kind are open within each other, reading the lines comes down to
counting: what is open anywhere is the nest that the text has up to there
(`carry_nestBehind`), and each span of a line is a `NestedSpan` (`nestedSpan_of_mem`).  That
holds as long as not all of the literals are closed (`NeverClosed`).  The character that
closes the last of them is the last of its span, and then nothing is open
(`exists_closing_span`).
-/

namespace ChipHighlight

open Text (escapesNext unescaped)

/-- Of `d` literals that are open in front of a text some one is open all along. -/
def NeverClosed (o c : Char) (d : Nat) (t : Text) : Prop :=
  ∀ p, p <+: t → unescaped c p < d + opens o c p

instance (o c : Char) (d : Nat) (t : Text) : Decidable (NeverClosed o c d t) :=
  decidable_of_iff
    (∀ k < t.length + 1, unescaped c (t.take k) < d + opens o c (t.take k))
    ⟨fun h p hp => by
      rw [List.prefix_iff_eq_take.mp hp]
      exact h p.length (Nat.lt_succ_of_le hp.length_le),
    fun h k _ => h (t.take k) (List.take_prefix k t)⟩

namespace NeverClosed

variable {o c : Char} {d : Nat} {t u : Text}

theorem of_append (h : NeverClosed o c d (t ++ u)) : NeverClosed o c d t :=
  fun _ hp => h _ (hp.trans (List.prefix_append t u))

theorem lt (h : NeverClosed o c d t) : unescaped c t < d + opens o c t := h t (List.prefix_refl t)

end NeverClosed

variable {rules : Rules} {o c : Char} {style : Option Style} {d : Nat}

/-- **A reading where something is still open.** -/
theorem nestedSpan_of_readNext (ho : o ≠ escapeMark) (hc : c ≠ escapeMark) {before taken rest : Text}
    {next : Stack} {shown : Option Style} (hopen : unescaped c before < d + opens o c before)
    (hne : taken ≠ [])
    (hread : readNext rules (nestBehind o c style d before) (taken ++ rest) =
      ⟨shown, taken.length, next⟩) :
    shown = style ∧ NestedSpan o c style d before taken (rest = []) next := by
  obtain ⟨depth, hdepth⟩ : ∃ depth, depth + 1 + unescaped c before = d + opens o c before :=
    ⟨d + opens o c before - unescaped c before - 1, by omega⟩
  have hsome : taken ++ rest ≠ [] := List.append_ne_nil_of_left_ne_nil hne rest
  rw [nestBehind, ← hdepth, Nat.add_sub_cancel, nest, readNext_literal _ _ _ hsome,
    Literal.reading, Reading.mk.injEq] at hread
  obtain ⟨hstyle, hlength, hnext⟩ := hread
  obtain ⟨taken', rest', hsplit, hlength', hspan⟩ :=
    nestedSpan_read ho hc style hdepth (taken ++ rest)
  rw [hlength] at hlength'
  rw [hnext] at hspan
  obtain ⟨rfl, rfl⟩ := List.append_inj hsplit hlength'
  exact ⟨hstyle.symm, hspan⟩

/-! ### Lines -/

/-- **What is open behind a line** is what the text has open. -/
theorem carry_nestBehind_line (ho : o ≠ escapeMark) (hc : c ≠ escapeMark) {before t : Text}
    (h : NeverClosed o c d (before ++ t)) :
    Mode.blip.carry rules (nestBehind o c style d before) [t] =
      nestBehind o c style d (before ++ t) := by
  induction hstack : nestBehind o c style d before, t using readings_induction rules
      generalizing before with
  | nil stack => rw [carry_line_nil, List.append_nil, hstack]
  | read stack next taken rest shown hne hread ih =>
    rw [← hstack] at hread
    obtain ⟨-, hspan⟩ := nestedSpan_of_readNext ho hc h.of_append.lt hne hread
    rw [← hstack, carry_line_read hne hread]
    rw [← List.append_assoc] at h ⊢
    exact ih h hspan.stack_eq.symm

theorem carry_nestBehind (ho : o ≠ escapeMark) (hc : c ≠ escapeMark) {before : Text}
    {lines : List Text} (h : NeverClosed o c d (before ++ lines.flatten)) :
    Mode.blip.carry rules (nestBehind o c style d before) lines =
      nestBehind o c style d (before ++ lines.flatten) := by
  induction lines generalizing before with
  | nil =>
    rw [List.flatten_nil, List.append_nil]
    rfl
  | cons line lines ih =>
    rw [List.flatten_cons, ← List.append_assoc] at h ⊢
    rw [← ih h, ← carry_nestBehind_line ho hc h.of_append, ← Mode.carry_append,
      List.singleton_append]

/-- **The spans of a line** are spans of nested literals, up to the one that closes the last. -/
theorem nestedSpan_of_mem (ho : o ≠ escapeMark) (hc : c ≠ escapeMark) {before t : Text}
    {pre post : List Span} {span : Span}
    (hspans : lineSpans rules (nestBehind o c style d before) t = pre ++ span :: post)
    (h : NeverClosed o c d (before ++ pre.flatMap Span.text)) :
    span.style = style ∧
      NestedSpan o c style d (before ++ pre.flatMap Span.text) span.text (post = [])
        span.stack := by
  induction hstack : nestBehind o c style d before, t using readings_induction rules
      generalizing before pre with
  | nil stack =>
    rw [hstack, lineSpans_nil] at hspans
    exact absurd hspans.symm (List.append_ne_nil_of_right_ne_nil _ (List.cons_ne_nil _ _))
  | read stack next taken rest shown hne hread ih =>
    rw [hstack, lineSpans_read hne hread] at hspans
    rw [← hstack] at hread
    cases pre with
    | nil =>
      rw [List.nil_append, List.cons.injEq] at hspans
      obtain ⟨rfl, rfl⟩ := hspans
      rw [List.flatMap_nil, List.append_nil] at h ⊢
      obtain ⟨hshown, hspan⟩ := nestedSpan_of_readNext ho hc h.lt hne hread
      refine ⟨hshown, hspan.imp ?_⟩
      rintro rfl
      exact lineSpans_nil _
    | cons first pre =>
      rw [List.cons_append, List.cons.injEq] at hspans
      obtain ⟨rfl, hspans⟩ := hspans
      rw [List.flatMap_cons, ← List.append_assoc] at h ⊢
      obtain ⟨-, hspan⟩ := nestedSpan_of_readNext ho hc h.of_append.of_append.lt hne hread
      have hnext := hspan.stack_eq.symm
      exact ih (hnext ▸ hspans) h hnext

/-! ### The end of the last literal -/

theorem exists_span_at {spans : List Span} {u v : Text} {x : Char}
    (h : spans.flatMap Span.text = u ++ x :: v) :
    ∃ pre span post s r, spans = pre ++ span :: post ∧ u = pre.flatMap Span.text ++ s ∧
      span.text = s ++ x :: r := by
  induction spans generalizing u with
  | nil => exact absurd h.symm (List.append_ne_nil_of_right_ne_nil _ (List.cons_ne_nil _ _))
  | cons first spans ih =>
    rw [List.flatMap_cons] at h
    rcases List.append_eq_append_iff.mp h with ⟨s, hu, hrest⟩ | ⟨r, hfirst, hrest⟩
    · obtain ⟨pre, span, post, s', r, rfl, rfl, htext⟩ := ih hrest
      refine ⟨first :: pre, span, post, s', r, rfl, ?_, htext⟩
      rw [hu, List.flatMap_cons, List.append_assoc]
    · cases r with
      | nil =>
        -- the character is the first behind this span
        obtain ⟨pre, span, post, s', r, rfl, hs, htext⟩ := @ih [] hrest.symm
        refine ⟨first :: pre, span, post, s', r, rfl, ?_, htext⟩
        rw [List.flatMap_cons, List.append_assoc, ← hs, hfirst, List.append_nil, List.append_nil]
      | cons y r =>
        obtain ⟨rfl, -⟩ := List.cons_eq_cons.mp hrest
        exact ⟨[], first, spans, u, r, rfl, rfl, hfirst⟩

/-- **What closes the last literal ends its span**, and nothing is open behind it. -/
theorem exists_closing_span (ho : o ≠ escapeMark) (hc : c ≠ escapeMark) {before u v : Text}
    {x : Char} (hopen : NeverClosed o c d (before ++ u))
    (hclosed : d + opens o c (before ++ u ++ [x]) ≤ unescaped c (before ++ u ++ [x])) :
    ∃ pre span post,
      lineSpans rules (nestBehind o c style d before) (u ++ x :: v) = pre ++ span :: post ∧
        pre.flatMap Span.text ++ span.text = u ++ [x] ∧ span.style = style ∧
        span.stack = [] := by
  have htexts : (lineSpans rules (nestBehind o c style d before) (u ++ x :: v)).flatMap Span.text =
      u ++ x :: v := flatMap_text_lineSpans _ _
  obtain ⟨pre, span, post, s, r, hspans, rfl, htext⟩ := exists_span_at htexts
  rw [← List.append_assoc] at hopen hclosed
  obtain ⟨hstyle, hends, -, hstack⟩ := nestedSpan_of_mem ho hc hspans hopen.of_append
  generalize before ++ pre.flatMap Span.text = front at hopen hclosed hends hstack
  -- the character is an unescaped closing quote, so none of its span can be in front of it
  have hone : unescaped c front < unescaped c (front ++ s ++ [x]) := by
    have hlt := hopen.lt
    have hmono := Text.unescaped_le_append c front s
    rw [opens_concat] at hclosed
    omega
  have hnone : ∀ w, unescaped c (front ++ (s ++ x :: w)) ≠ unescaped c front := by
    intro w
    have hmono := Text.unescaped_le_append c (front ++ s ++ [x]) w
    have hsplit : front ++ (s ++ x :: w) = front ++ s ++ [x] ++ w := by simp
    rw [hsplit]
    omega
  have hr : r = [] := by
    rcases hends with ⟨s', hs', -, hcount⟩ | ⟨-, hcount⟩
    · rcases List.eq_nil_or_concat r with hr | ⟨r', y, rfl⟩
      · exact hr
      · rw [htext, List.concat_eq_append, ← List.cons_append, ← List.append_assoc] at hs'
        rw [← (List.append_inj' hs' rfl).1] at hcount
        exact absurd hcount (hnone r')
    · rw [htext] at hcount
      exact absurd hcount (hnone r)
  rw [hr] at htext
  refine ⟨pre, span, post, hspans, by rw [htext, List.append_assoc], hstyle, ?_⟩
  rw [hstack, htext, ← List.append_assoc, nestBehind, Nat.sub_eq_zero_of_le hclosed, nest]

/-- **Nested literals are read by counting.**  Of `d` literals that are open within each
other in front of some lines, `d` and the unescaped opening quotes less the unescaped closing
ones are open behind any reading, all of one kind and with no flag set but that of the next
character in the innermost.  Every span is shown in their style and ends behind an unescaped
closing quote, the first there is, or with its line.  That goes on up to the character with
which all are closed: it ends its span, and then nothing is open. -/
theorem nested_literals_count (config : Config) {o c : Char} (ho : o ≠ '\\') (hc : c ≠ '\\')
    (style : Option Style) (d : Nat) (lines : List Text) (line : Text) :
    let stack := Mode.blip.carry config.rules
      (List.replicate d { opening := [o], closing := [c], style := style }) lines
    let spans := Mode.blip.spans config.rules stack [] line
    (∀ pre span post, spans = pre ++ span :: post →
      let before := lines.flatten ++ pre.flatMap Span.text
      let behind := before ++ span.text
      NeverClosed o c d before →
        span.style = style ∧
        ((∃ s, span.text = s ++ [c] ∧ escapesNext (before ++ s) = false ∧
            unescaped c (before ++ s) = unescaped c before) ∨
          post = [] ∧ unescaped c behind = unescaped c before) ∧
        span.stack.length + unescaped c behind = d + opens o c behind ∧
        (∀ a ∈ span.stack, a.opening = [o] ∧ a.closing = [c] ∧ a.style = style) ∧
        (∀ a ∈ span.stack.head?, a.escaped = escapesNext behind) ∧
        ∀ a ∈ span.stack.tail, a.escaped = false) ∧
    ∀ u x v, line = u ++ x :: v → NeverClosed o c d (lines.flatten ++ u) →
      d + opens o c (lines.flatten ++ u ++ [x]) ≤ unescaped c (lines.flatten ++ u ++ [x]) →
      ∃ pre span post, spans = pre ++ span :: post ∧
        pre.flatMap Span.text ++ span.text = u ++ [x] ∧ span.style = style ∧
        span.stack = [] := by
  intro stack spans
  have hstart : nestBehind o c style d [] =
      List.replicate d { opening := [o], closing := [c], style := style } := by
    rw [nestBehind, opens_nil, Text.unescaped_nil, Text.escapesNext_nil, nest_false]
    rfl
  have hstack : NeverClosed o c d lines.flatten →
      stack = nestBehind o c style d lines.flatten := by
    intro h
    have hcarry : Mode.blip.carry config.rules (nestBehind o c style d []) lines =
        nestBehind o c style d ([] ++ lines.flatten) := carry_nestBehind ho hc h
    rwa [hstart, List.nil_append] at hcarry
  constructor
  · intro pre span post hspans before behind hopen
    have hline : spans = lineSpans config.rules stack line := rfl
    rw [hline, hstack hopen.of_append] at hspans
    obtain ⟨hstyle, hends, hbalanced, hnest⟩ := nestedSpan_of_mem ho hc hspans hopen
    rw [hnest]
    refine ⟨hstyle, hends, ?_, fun a => quotes_of_mem_nest, fun a => escaped_of_mem_head?_nest,
      fun a => escaped_of_mem_tail_nest⟩
    rw [nestBehind, length_nest, Nat.sub_add_cancel hbalanced]
  · rintro u x v rfl hopen hclosed
    have hline : spans = lineSpans config.rules stack (u ++ x :: v) := rfl
    rw [hline, hstack hopen.of_append]
    exact exists_closing_span ho hc hopen hclosed

/-- A quote that a backslash at the end of the line before escapes, one that closes the inner
literal, and one that closes the outer. -/
theorem spans_behind_carried_escape :
    let stack := Mode.blip.carry Config.default.rules
      [{ opening := ['('], closing := [')'], style := some .comment }] ["(\\".toList]
    let spans := Mode.blip.spans Config.default.rules stack [] ")x)y) t".toList
    '(' ≠ '\\' ∧ ')' ≠ '\\' ∧
      (∃ span post, spans = span :: post ∧ span.text = ")x)".toList ∧
        span.stack.length + 1 = 1 + 1) ∧
      ∃ pre span post, spans = pre ++ span :: post ∧
        pre.flatMap Span.text ++ span.text = ")x)y)".toList ∧ span.style = some .comment ∧
        span.stack = [] := by
  intro stack spans
  have ho : '(' ≠ '\\' := by decide
  have hc : ')' ≠ '\\' := by decide
  obtain ⟨hspan, hlast⟩ := nested_literals_count Config.default ho hc (some .comment) 1
    ["(\\".toList] ")x)y) t".toList
  have hspans : spans = [] ++ ⟨")x)".toList, some .comment,
      [{ opening := ['('], closing := [')'], style := some .comment }]⟩ :: spans.tail := by
    decide +kernel
  obtain ⟨-, -, hdepth, -⟩ := hspan [] _ _ hspans (by decide)
  exact ⟨ho, hc, ⟨_, _, hspans, rfl, hdepth⟩,
    hlast ")x)y".toList ')' " t".toList rfl (by decide) (by decide)⟩

end ChipHighlight
