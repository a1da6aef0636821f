import ChipHighlight.Literal
import ChipHighlight.Proofs.Text.Escapes

/-!
# Nested literals as a depth and a flag

Literals of one kind that are open within each other form a `nest`: of all their escape
flags only that of the innermost is ever set.  So a nest is a depth and a flag, and both
can be read off the text.  The depth goes up with an unescaped opening quote and down with
an unescaped closing one, and the flag says whether the next character is escaped.

One reading in a nest is a `NestedSpan` of the text: it ends behind the first unescaped
closing quote, or with the line if there is none, and leaves the nest that the text behind
it has.
-/

namespace ChipHighlight

open Text (escapesNext unescaped)

/-- A literal between two quotes that are given, as it is where nothing is escaped. -/
def Literal.between (o c : Char) (style : Option Style) : Literal :=
  { opening := [o], closing := [c], style := style }

/-- **Literals of one kind within each other**: a depth, and whether the next character is
escaped in the innermost. -/
def nest (o c : Char) (style : Option Style) : (depth : Nat) → (flag : Bool) → Stack
  | 0, _ => []
  | n + 1, flag =>
    { Literal.between o c style with escaped := flag } :: List.replicate n (.between o c style)

@[simp] theorem length_nest (o c : Char) (style : Option Style) (depth : Nat) (flag : Bool) :
    (nest o c style depth flag).length = depth := by
  cases depth with
  | zero => rfl
  | succ n => exact congrArg Nat.succ List.length_replicate

section

variable {o c : Char} {style : Option Style} {depth : Nat} {flag : Bool} {a : Literal}

theorem quotes_of_mem_nest (h : a ∈ nest o c style depth flag) :
    a.opening = [o] ∧ a.closing = [c] ∧ a.style = style := by
  cases depth with
  | zero => exact absurd h List.not_mem_nil
  | succ n =>
    rcases List.mem_cons.mp h with rfl | h
    · exact ⟨rfl, rfl, rfl⟩
    · rw [List.eq_of_mem_replicate h]
      exact ⟨rfl, rfl, rfl⟩

theorem escaped_of_mem_head?_nest (h : a ∈ (nest o c style depth flag).head?) :
    a.escaped = flag := by
  cases depth with
  | zero => cases h
  | succ n =>
    obtain rfl := Option.some.inj h
    rfl

theorem escaped_of_mem_tail_nest (h : a ∈ (nest o c style depth flag).tail) :
    a.escaped = false := by
  cases depth with
  | zero => exact absurd h List.not_mem_nil
  | succ n =>
    rw [List.eq_of_mem_replicate h]
    rfl

end

theorem nest_false (o c : Char) (style : Option Style) (depth : Nat) :
    nest o c style depth false = List.replicate depth (.between o c style) := by
  cases depth with
  | zero => rfl
  | succ n => rfl

/-- How many literals a text opens: none if the two quotes are the same. -/
def opens (o c : Char) (t : Text) : Nat := if o = c then 0 else unescaped o t

@[simp] theorem opens_nil (o c : Char) : opens o c [] = 0 := by
  unfold opens
  split
  · rfl
  · rfl

theorem opens_concat (o c : Char) (t : Text) (x : Char) :
    opens o c (t ++ [x]) =
      opens o c t + if x = o ∧ o ≠ c ∧ escapesNext t = false then 1 else 0 := by
  unfold opens
  by_cases hoc : o = c
  · simp [hoc]
  · rw [if_neg hoc, if_neg hoc, Text.unescaped_concat]
    simp [hoc]

def nestBehind (o c : Char) (style : Option Style) (d : Nat) (t : Text) : Stack :=
  nest o c style (d + opens o c t - unescaped c t) (escapesNext t)

/-- **A span inside of nested literals**, of which `d` were open at the beginning of all the
text.  It ends with an unescaped closing quote, the first behind `before`, or where it is
said to end if there is none; and what is open then is the nest that the text has. -/
structure NestedSpan (o c : Char) (style : Option Style) (d : Nat) (before taken : Text)
    (atEnd : Prop) (next : Stack) : Prop where
  ends : (∃ s, taken = s ++ [c] ∧ escapesNext (before ++ s) = false ∧
      unescaped c (before ++ s) = unescaped c before) ∨
    atEnd ∧ unescaped c (before ++ taken) = unescaped c before
  balanced : unescaped c (before ++ taken) ≤ d + opens o c (before ++ taken)
  stack_eq : next = nestBehind o c style d (before ++ taken)

namespace NestedSpan

variable {o c : Char} {style : Option Style} {d : Nat} {before taken : Text} {atEnd : Prop}
  {next : Stack}

/-- A span with one more character in front, which is no unescaped closing quote. -/
theorem cons {x : Char} (hx : unescaped c (before ++ [x]) = unescaped c before)
    (h : NestedSpan o c style d (before ++ [x]) taken atEnd next) :
    NestedSpan o c style d before (x :: taken) atEnd next := by
  have happend : ∀ s, before ++ [x] ++ s = before ++ x :: s := fun s =>
    List.append_assoc before [x] s
  obtain ⟨hends, hbalanced, hstack⟩ := h
  rw [happend] at hbalanced hstack hends
  refine ⟨?_, hbalanced, hstack⟩
  rcases hends with ⟨s, rfl, hescape, hcount⟩ | ⟨hend, hcount⟩
  · rw [happend] at hescape hcount
    exact Or.inl ⟨x :: s, rfl, hescape, hcount.trans hx⟩
  · exact Or.inr ⟨hend, hcount.trans hx⟩

theorem imp {atEnd' : Prop} (h : NestedSpan o c style d before taken atEnd next)
    (himp : atEnd → atEnd') : NestedSpan o c style d before taken atEnd' next :=
  ⟨h.ends.imp_right fun hend => ⟨himp hend.1, hend.2⟩, h.balanced, h.stack_eq⟩

end NestedSpan

theorem nestedSpan_read {o c : Char} (ho : o ≠ escapeMark) (hc : c ≠ escapeMark)
    (style : Option Style) {d depth : Nat} {before : Text}
    (hdepth : depth + 1 + unescaped c before = d + opens o c before) (t : Text) :
    let a : Literal := { Literal.between o c style with escaped := escapesNext before }
    let outer : Stack := List.replicate depth (.between o c style)
    ∃ taken rest, t = taken ++ rest ∧ (a.read outer t).length = taken.length ∧
      NestedSpan o c style d before taken (rest = []) (a.read outer t).stack := by
  induction t generalizing depth before with
  | nil =>
    refine ⟨[], [], rfl, rfl, Or.inr ⟨rfl, by rw [List.append_nil]⟩, ?_, ?_⟩
    · rw [List.append_nil]
      omega
    · rw [List.append_nil, nestBehind, ← hdepth, Nat.add_sub_cancel]
      rfl
  | cons x t ih =>
    intro a outer
    rw [Literal.read_cons]
    by_cases hcloses : x = c ∧ escapesNext before = false
    · -- an unescaped closing quote, and the span ends
      have hcount : unescaped c (before ++ [x]) = unescaped c before + 1 := by
        rw [Text.unescaped_concat, if_pos hcloses]
      have hopens : opens o c (before ++ [x]) = opens o c before := by
        rw [opens_concat, if_neg, Nat.add_zero]
        rintro ⟨rfl, hoc, -⟩
        exact hoc hcloses.1
      have hleft : d + opens o c before - (unescaped c before + 1) = depth := by omega
      obtain ⟨rfl, hflag⟩ := hcloses
      rw [if_pos ((a.closesAt_iff rfl).mpr ⟨rfl, hflag⟩)]
      refine ⟨[x], t, rfl, rfl, Or.inl ⟨[], rfl, ?_, ?_⟩, ?_, ?_⟩
      · rwa [List.append_nil]
      · rw [List.append_nil]
      · rw [hcount, hopens]
        omega
      · rw [nestBehind, hcount, hopens, hleft, Text.escapesNext_concat_of_ne hc, nest_false]
    · have hcount : unescaped c (before ++ [x]) = unescaped c before := by
        rw [Text.unescaped_concat, if_neg hcloses, Nat.add_zero]
      have hfurther : ∀ (next : Literal) (around : Stack),
          (∃ taken rest, t = taken ++ rest ∧ (next.read around t).length = taken.length ∧
            NestedSpan o c style d (before ++ [x]) taken (rest = []) (next.read around t).stack) →
          ∃ taken rest, x :: t = taken ++ rest ∧
            (next.read around t).further.length = taken.length ∧
            NestedSpan o c style d before taken (rest = []) (next.read around t).further.stack := by
        rintro next around ⟨taken, rest, rfl, hlength, hspan⟩
        exact ⟨x :: taken, rest, rfl, congrArg Nat.succ hlength, hspan.cons hcount⟩
      rw [if_neg (mt (a.closesAt_iff rfl).mp hcloses)]
      by_cases hopens : x = o ∧ o ≠ c ∧ escapesNext before = false
      · -- an unescaped opening quote, and one literal more
        rw [if_pos ((a.opensAt_iff rfl rfl).mpr hopens)]
        have hdeeper : depth + 1 + 1 + unescaped c (before ++ [x]) =
            d + opens o c (before ++ [x]) := by
          rw [hcount, opens_concat, if_pos hopens]
          omega
        obtain ⟨rfl, -, hflag⟩ := hopens
        have hfresh : a.fresh =
            { Literal.between x c style with escaped := escapesNext (before ++ [x]) } := by
          rw [Text.escapesNext_concat_of_ne ho]
          rfl
        have hopen : a :: outer = List.replicate (depth + 1) (.between x c style) := by
          rw [List.replicate_succ]
          congr 1
          show { Literal.between x c style with escaped := escapesNext before } = _
          rw [hflag]
          rfl
        rw [hfresh, hopen]
        exact hfurther _ _ (ih hdeeper)
      · rw [if_neg (mt (a.opensAt_iff rfl rfl).mp hopens)]
        have hsame : depth + 1 + unescaped c (before ++ [x]) = d + opens o c (before ++ [x]) := by
          rw [hcount, opens_concat, if_neg hopens]
          omega
        have hpass : a.pass x =
            { Literal.between o c style with escaped := escapesNext (before ++ [x]) } := by
          rw [Text.escapesNext_concat]
          rfl
        rw [hpass]
        exact hfurther _ _ (ih hsame)

end ChipHighlight
