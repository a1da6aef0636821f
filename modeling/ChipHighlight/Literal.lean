import ChipHighlight.Alphabet
import ChipHighlight.Style

/-!
# Open literals

A quoted literal may run over many lines, so what is open at the end of one line
is carried to the next.  A literal is open from its opening quote to the first
closing quote that no backslash escapes.  If its two quotes differ, an opening
quote inside it opens another literal of the same kind within it; the open
literals form a stack, innermost first, and each keeps its own escape flag.

`Literal.read` is one reading inside a literal.  It stops behind the first
closing quote, that of the innermost literal then open, or at the end of the
line,

    (a.read outer t).length     characters are read,
    (a.read outer t).stack      is open after them.

It looks at each character once and never at one behind the quote it stops at, and
it does not look at `outer` at all (`read_append_outer`): the literals outside wait
untouched until those inside are closed.

Any number of literals may be open.  The recursion limit of an interpreter is not
modelled: one that reads each literal by calls within the calls for those around it
meets that limit in a text with very many opening quotes.
-/

namespace ChipHighlight

/-- One open literal.  The quotes are texts, and a quote matches a character when
it is that one character; so a quote of any other length never matches. -/
structure Literal where
  opening : Text
  closing : Text
  style : Option Style := some .string
  escaped : Bool := false
deriving DecidableEq, Repr

/-- The open literals, innermost first. -/
abbrev Stack := List Literal

/-- What a reading leaves: how many characters it took and what is open after
them. -/
structure Advance where
  length : Nat
  stack : Stack
deriving DecidableEq, Repr

namespace Advance

def further (a : Advance) : Advance := { a with length := a.length + 1 }

@[simp] theorem length_further (a : Advance) : a.further.length = a.length + 1 := rfl

@[simp] theorem stack_further (a : Advance) : a.further.stack = a.stack := rfl

end Advance

namespace Literal

/-- A literal that a quote opens and the same quote closes. -/
def quotedBy (quote : Char) (style : Style) : Literal :=
  { opening := [quote], closing := [quote], style := some style }

/-- A literal of the same kind at its beginning. -/
def fresh (a : Literal) : Literal := { a with escaped := false }

def closesAt (a : Literal) (c : Char) : Bool := !a.escaped && a.closing == [c]

def opensAt (a : Literal) (c : Char) : Bool :=
  !a.escaped && a.opening == [c] && a.opening != a.closing

theorem closesAt_iff (a : Literal) {q c : Char} (hclosing : a.closing = [q]) :
    a.closesAt c = true ↔ c = q ∧ a.escaped = false := by
  rw [closesAt, Bool.and_eq_true, Bool.not_eq_true', beq_iff_eq, hclosing, List.cons.injEq,
    and_comm, eq_comm]
  exact and_congr_left fun _ => and_iff_left rfl

/-- Two quotes that are the same close a literal, and open none. -/
theorem opensAt_iff (a : Literal) {o q c : Char} (hopening : a.opening = [o])
    (hclosing : a.closing = [q]) :
    a.opensAt c = true ↔ c = o ∧ o ≠ q ∧ a.escaped = false := by
  simp only [opensAt, hopening, hclosing, Bool.and_eq_true, Bool.not_eq_true', beq_iff_eq,
    bne_iff_ne, List.cons.injEq, and_true, ne_eq]
  constructor
  · rintro ⟨⟨hflag, hc⟩, hne⟩
    exact ⟨hc.symm, hne, hflag⟩
  · rintro ⟨hc, hne, hflag⟩
    exact ⟨⟨hflag, hc.symm⟩, hne⟩

/-- The literal after a character that belongs to its text. -/
def pass (a : Literal) (c : Char) : Literal :=
  { a with escaped := !a.escaped && c == escapeMark }

/-- **One reading inside a literal.** -/
def read (a : Literal) (outer : Stack) : Text → Advance
  | [] => ⟨0, a :: outer⟩
  | c :: t =>
    if a.closesAt c then ⟨1, outer⟩
    else if a.opensAt c then (a.fresh.read (a :: outer) t).further
    else ((a.pass c).read outer t).further

@[simp] theorem read_nil (a : Literal) (outer : Stack) : a.read outer [] = ⟨0, a :: outer⟩ := rfl

theorem read_cons (a : Literal) (outer : Stack) (c : Char) (t : Text) :
    a.read outer (c :: t) =
      if a.closesAt c then ⟨1, outer⟩
      else if a.opensAt c then (a.fresh.read (a :: outer) t).further
      else ((a.pass c).read outer t).further := rfl

/-! ### How far a reading goes -/

theorem length_read_le (a : Literal) (outer : Stack) (t : Text) :
    (a.read outer t).length ≤ t.length := by
  induction t generalizing a outer with
  | nil => exact Nat.le_refl 0
  | cons c t ih =>
    rw [read_cons, List.length_cons]
    split
    · exact Nat.succ_le_succ (Nat.zero_le _)
    · split
      · exact Nat.succ_le_succ (ih _ _)
      · exact Nat.succ_le_succ (ih _ _)

theorem length_read_pos (a : Literal) (outer : Stack) {t : Text} (h : t ≠ []) :
    0 < (a.read outer t).length := by
  cases t with
  | nil => exact absurd rfl h
  | cons c t =>
    rw [read_cons]
    split
    · exact Nat.zero_lt_one
    · split
      · exact Nat.succ_pos _
      · exact Nat.succ_pos _

/-- **A literal whose two quotes are the same** is closed, or the whole text is read in it. -/
theorem read_of_same_quotes {a : Literal} (h : a.opening = a.closing) (outer : Stack) (t : Text) :
    (a.read outer t).stack = outer ∨
      ∃ flag, a.read outer t = ⟨t.length, { a with escaped := flag } :: outer⟩ := by
  induction t generalizing a with
  | nil => exact Or.inr ⟨a.escaped, rfl⟩
  | cons c t ih =>
    have hopens : ¬ a.opensAt c = true := by
      rw [opensAt, h, bne_self_eq_false, Bool.and_false]
      exact Bool.false_ne_true
    rw [read_cons, if_neg hopens]
    split
    · exact Or.inl rfl
    · rcases ih (a := a.pass c) h with hclosed | ⟨flag, hopen⟩
      · exact Or.inl hclosed
      · exact Or.inr ⟨flag, congrArg Advance.further hopen⟩

/-! ### What a reading does not look at -/

/-- **The literals outside wait.**  Further ones outside change nothing but what
is found there afterwards. -/
theorem read_append_outer (a : Literal) (inner outer : Stack) (t : Text) :
    a.read (inner ++ outer) t =
      ⟨(a.read inner t).length, (a.read inner t).stack ++ outer⟩ := by
  induction t generalizing a inner with
  | nil => rfl
  | cons c t ih =>
    rw [read_cons, read_cons]
    split
    · rfl
    · split
      · rw [← List.cons_append, ih]; rfl
      · rw [ih]; rfl

end Literal

end ChipHighlight
