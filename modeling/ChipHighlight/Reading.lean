import ChipHighlight.Keyword
import ChipHighlight.Lexeme
import ChipHighlight.Literal
import ChipHighlight.Rules

/-!
# One reading

A line is read in steps.  `readNext` is one of them: given the rules and the open
literals it says how many characters the next span takes, in which style they are
shown, and what is open after them.  Inside a literal it reads on in that
literal; outside it reads one lexeme, and when that lexeme is a quote it opens a
literal and reads on inside, so a quote and the text behind it are one span.

A literal keeps the style it was opened with.  The rules are looked at only outside
of literals, and there only for three things: the sharp that a note does not have,
the style of a literal that opens, and the further keywords.
-/

namespace ChipHighlight

structure Reading where
  style : Option Style
  length : Nat
  stack : Stack
deriving DecidableEq, Repr

/-- The style of a word: reserved words and the further keywords have one. -/
def wordStyle (rules : Rules) (word : Text) : Option Style :=
  match Keyword.style? word with
  | some style => some style
  | none => if rules.keywords.contains word then some .keyword else none

theorem wordStyle_cases (rules : Rules) (word : Text) :
    wordStyle rules word = some .keyword ∨ wordStyle rules word = none := by
  unfold wordStyle Keyword.style?
  cases Keyword.isReserved word with
  | true => exact Or.inl rfl
  | false =>
    cases rules.keywords.contains word with
    | true => exact Or.inl rfl
    | false => exact Or.inr rfl

namespace LexemeKind

/-- The style of a lexeme of this sort, spelled `spelling`.  A quote has none of
its own: it belongs to the literal that it opens. -/
def style (rules : Rules) (spelling : Text) : LexemeKind → Option Style
  | blank | escape | quote _ => none
  | punctuation => some .punctuation
  | comment => some .comment
  | note => some .note
  | number => some .number
  | word => wordStyle rules spelling

end LexemeKind

namespace Literal

def reading (a : Literal) (outer : Stack) (t : Text) : Reading :=
  ⟨a.style, (a.read outer t).length, (a.read outer t).stack⟩

/-- A span that begins with the quote that opens a literal. -/
def opened (quote : Char) (style : Style) (t : Text) : Reading :=
  let advance := ((quotedBy quote style).read [] t).further
  ⟨some style, advance.length, advance.stack⟩

end Literal

/-- A span outside of literals: a lexeme at the beginning of `c :: t`, or the
literal that it opens. -/
def Lexeme.reading (rules : Rules) (c : Char) (t : Text) (lexeme : Lexeme) : Reading :=
  match lexeme.kind with
  | .quote mark => Literal.opened mark rules.literalStyle t
  | kind => ⟨kind.style rules ((c :: t).take lexeme.length), lexeme.length, []⟩

def readLexeme (rules : Rules) (c : Char) (t : Text) : Reading :=
  (Lexeme.read rules.lenient c t).reading rules c t

/-- **One reading.**  At the end of the line nothing is read and nothing
changes. -/
def readNext (rules : Rules) : Stack → Text → Reading
  | stack, [] => ⟨none, 0, stack⟩
  | a :: outer, c :: t => a.reading outer (c :: t)
  | [], c :: t => readLexeme rules c t

/-! ### The three cases -/

@[simp] theorem readNext_nil (rules : Rules) (stack : Stack) :
    readNext rules stack [] = ⟨none, 0, stack⟩ := by
  cases stack <;> rfl

theorem readNext_literal (rules : Rules) (a : Literal) (outer : Stack) {t : Text} (h : t ≠ []) :
    readNext rules (a :: outer) t = a.reading outer t := by
  cases t with
  | nil => exact absurd rfl h
  | cons c t => rfl

@[simp] theorem readNext_base (rules : Rules) (c : Char) (t : Text) :
    readNext rules [] (c :: t) = readLexeme rules c t := rfl

/-! ### How far a reading goes -/

theorem length_opened (quote : Char) (style : Style) (t : Text) :
    (Literal.opened quote style t).length =
      ((Literal.quotedBy quote style).read [] t).length + 1 := rfl

theorem length_readLexeme_pos (rules : Rules) (c : Char) (t : Text) :
    0 < (readLexeme rules c t).length := by
  unfold readLexeme Lexeme.reading
  split
  · exact Nat.succ_pos _
  · exact Lexeme.length_read_pos _ c t

theorem length_readLexeme_le (rules : Rules) (c : Char) (t : Text) :
    (readLexeme rules c t).length ≤ t.length + 1 := by
  unfold readLexeme Lexeme.reading
  split
  · exact Nat.succ_le_succ (Literal.length_read_le _ [] t)
  · exact Lexeme.length_read_le _ c t

theorem length_readNext_le (rules : Rules) (stack : Stack) (t : Text) :
    (readNext rules stack t).length ≤ t.length := by
  cases t with
  | nil => simp
  | cons c t =>
    cases stack with
    | nil => exact length_readLexeme_le rules c t
    | cons a outer => exact Literal.length_read_le a outer (c :: t)

/-- **Every reading gets on.**  Before the end of the line at least one character
is read. -/
theorem length_readNext_pos (rules : Rules) (stack : Stack) {t : Text} (h : t ≠ []) :
    0 < (readNext rules stack t).length := by
  cases t with
  | nil => exact absurd rfl h
  | cons c t =>
    cases stack with
    | nil => exact length_readLexeme_pos rules c t
    | cons a outer => exact Literal.length_read_pos a outer h

end ChipHighlight
