import ChipHighlight.Alphabet

/-!
# Lexemes

Outside of literals a line is a sequence of lexemes: runs of white space, single
punctuation marks, a backslash with the character it hides, a quote, a comment to
the end of the line, a note with its sharp and octave, a number or fraction with
its sign, and words.  `lexeme` reads the one at the beginning of a text.  The
classes that a lexeme can begin with are disjoint, so the first character alone
selects the rule, with two exceptions: a note letter needs a sharp or a digit
behind it and a sign needs a digit, and without one they begin a word like any
other character.  Only whether a sharp that its note does not have is read with
it depends on the configuration.
-/

namespace ChipHighlight

inductive LexemeKind
  | blank
  | punctuation
  | escape
  | quote (mark : Char)
  | comment
  | note
  | number
  | word
deriving DecidableEq, Repr

/-- A lexeme at the beginning of a text: its sort and how many characters it
takes. -/
structure Lexeme where
  kind : LexemeKind
  length : Nat
deriving DecidableEq, Repr

namespace Lexeme

open Text (runLength)

def digits (t : Text) : Nat := runLength isDigit t

def digitNext : Text → Bool
  | [] => false
  | c :: _ => isDigit c

/-- Whether a sharp or a digit comes next: what makes a letter a note. -/
def pitchNext : Text → Bool
  | [] => false
  | c :: _ => c == sharpMark || isDigit c

def noteTail (lenient : Bool) (letter : Char) : Text → Nat
  | [] => 0
  | c :: t =>
    if c = sharpMark then (if lenient || hasSharp letter then digits t + 1 else 0)
    else digits (c :: t)

def fractionTail : Text → Nat
  | [] => 0
  | c :: t => if c = fractionMark then digits t + 1 else 0

/-- **The lexeme at the beginning of a text** that begins with `c` and goes on
with `t`. -/
def read (lenient : Bool) (c : Char) (t : Text) : Lexeme :=
  if isSpace c then ⟨.blank, runLength isSpace t + 1⟩
  else if isPunctuation c then ⟨.punctuation, 1⟩
  else if c = escapeMark then ⟨.escape, min t.length 1 + 1⟩
  else if isQuote c then ⟨.quote c, 1⟩
  else if c = commentMark then ⟨.comment, t.length + 1⟩
  else if isNoteName c && pitchNext t then ⟨.note, noteTail lenient c t + 1⟩
  else if isSign c && digitNext t then ⟨.number, digits t + 1⟩
  else if isDigit c then ⟨.number, digits t + fractionTail (t.drop (digits t)) + 1⟩
  else ⟨.word, runLength isWordPart t + 1⟩

/-! ### How far a lexeme goes -/

theorem digits_le (t : Text) : digits t ≤ t.length := Text.runLength_le isDigit t

theorem noteTail_le (lenient : Bool) (letter : Char) (t : Text) :
    noteTail lenient letter t ≤ t.length := by
  cases t with
  | nil => exact Nat.le_refl 0
  | cons c t =>
    rw [noteTail]
    split
    · split
      · exact Nat.succ_le_succ (digits_le t)
      · exact Nat.zero_le _
    · exact digits_le (c :: t)

theorem fractionTail_le (t : Text) : fractionTail t ≤ t.length := by
  cases t with
  | nil => exact Nat.le_refl 0
  | cons c t =>
    rw [fractionTail]
    split
    · exact Nat.succ_le_succ (digits_le t)
    · exact Nat.zero_le _

theorem length_read_pos (lenient : Bool) (c : Char) (t : Text) : 0 < (read lenient c t).length := by
  unfold read
  repeat' split
  all_goals exact Nat.succ_pos _

theorem length_read_le (lenient : Bool) (c : Char) (t : Text) :
    (read lenient c t).length ≤ t.length + 1 := by
  have hspace := Text.runLength_le isSpace t
  have hword := Text.runLength_le isWordPart t
  have hdigits := digits_le t
  have hnote := noteTail_le lenient c t
  have hfraction := fractionTail_le (t.drop (digits t))
  rw [List.length_drop] at hfraction
  unfold read
  repeat' split
  all_goals simp only
  all_goals omega

end Lexeme

end ChipHighlight
