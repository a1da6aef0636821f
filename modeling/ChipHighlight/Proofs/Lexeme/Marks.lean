import ChipHighlight.Lexeme

/-!
# Marks and white space

Four characters decide what is hidden, literal or comment: the backslash, the two quotes
and the percent sign.  A lexeme that begins with one of them is an escape, a quote or a
comment.  One that begins with white space takes all of it up to the next other
character.  Any other goes on with letters, digits and the few signs that may follow
within a note, a number or a word (`Lexeme.exists_tail_of_read`), and so holds no mark and
no white space at all.
-/

namespace ChipHighlight

def isMark (c : Char) : Bool := c == escapeMark || isQuote c || c == commentMark

theorem isMark_iff {c : Char} :
    isMark c = true ↔ c = '\\' ∨ isQuote c = true ∨ c = '%' := by
  simp only [isMark, Bool.or_eq_true, beq_iff_eq, or_assoc, escapeMark, commentMark]

theorem isQuote_iff {c : Char} : isQuote c = true ↔ c = '\'' ∨ c = '"' := by
  simp only [isQuote, Bool.or_eq_true, beq_iff_eq]

theorem not_isMark_of_class {p : Char → Bool} (hescape : p '\\' = false) (hsingle : p '\'' = false)
    (hdouble : p '"' = false) (hcomment : p '%' = false) {c : Char} (h : p c = true) :
    isMark c = false := by
  rw [← Bool.not_eq_true]
  intro hmark
  rw [isMark_iff, isQuote_iff] at hmark
  obtain rfl | (rfl | rfl) | rfl := hmark
  · exact Bool.false_ne_true (hescape.symm.trans h)
  · exact Bool.false_ne_true (hsingle.symm.trans h)
  · exact Bool.false_ne_true (hdouble.symm.trans h)
  · exact Bool.false_ne_true (hcomment.symm.trans h)

/-- What can stand in a note, a number or a word behind its first character. -/
def isTailPart (c : Char) : Bool := isWordPart c || c == sharpMark || c == fractionMark

theorem isTailPart_of_isWordPart {c : Char} (h : isWordPart c = true) : isTailPart c = true := by
  rw [isTailPart, h, Bool.true_or, Bool.true_or]

theorem isTailPart_of_isDigit {c : Char} (h : isDigit c = true) : isTailPart c = true := by
  refine isTailPart_of_isWordPart ?_
  rw [isWordPart, h, Bool.or_true, Bool.true_or, Bool.true_or]

theorem not_isMark_of_isTailPart {c : Char} (h : isTailPart c = true) : isMark c = false :=
  not_isMark_of_class rfl rfl rfl rfl h

theorem not_isSpace_of_between {c : Char} (hlow : '!' ≤ c) (hhigh : c ≤ '~') :
    isSpace c = false := by
  have hlow' : 0x21 ≤ c.toNat := UInt32.le_iff_toNat_le.mp hlow
  have hhigh' : c.toNat ≤ 0x7E := UInt32.le_iff_toNat_le.mp hhigh
  rw [isSpace, List.any_eq_false]
  intro r hr
  rw [Bool.and_eq_true, decide_eq_true_eq, decide_eq_true_eq]
  simp only [spaceRanges, List.mem_cons, List.not_mem_nil, or_false] at hr
  rcases hr with rfl | rfl | rfl | rfl | rfl | rfl | rfl | rfl | rfl | rfl <;> omega

theorem not_isSpace_of_isTailPart {c : Char} (h : isTailPart c = true) : isSpace c = false := by
  simp only [isTailPart, isWordPart, isDigit, sharpMark, fractionMark, Bool.or_eq_true,
    Bool.and_eq_true, decide_eq_true_eq, beq_iff_eq] at h
  have hbetween : '!' ≤ c ∧ c ≤ '~' := by
    obtain (((((h | h) | h) | rfl) | rfl) | rfl) | rfl := h
    · exact ⟨Char.le_trans (by decide) h.1, Char.le_trans h.2 (by decide)⟩
    · exact ⟨Char.le_trans (by decide) h.1, Char.le_trans h.2 (by decide)⟩
    · exact ⟨Char.le_trans (by decide) h.1, Char.le_trans h.2 (by decide)⟩
    all_goals decide
  exact not_isSpace_of_between hbetween.1 hbetween.2

def Markless (t : Text) : Prop := ∀ c ∈ t, isMark c = false

theorem Markless.cons {c : Char} {t : Text} (hc : isMark c = false) (ht : Markless t) :
    Markless (c :: t) := List.forall_mem_cons.mpr ⟨hc, ht⟩

namespace Lexeme

theorem tail_digits (t : Text) : ∀ c ∈ t.take (digits t), isTailPart c = true :=
  fun _ hc => isTailPart_of_isDigit (Text.of_mem_take_runLength hc)

theorem tail_noteTail (lenient : Bool) (letter : Char) (t : Text) :
    ∀ c ∈ t.take (noteTail lenient letter t), isTailPart c = true := by
  cases t with
  | nil => exact List.forall_mem_nil _
  | cons c t =>
    rw [noteTail]
    split
    · rename_i hc
      split
      · rw [hc, List.take_succ_cons]
        exact List.forall_mem_cons.mpr ⟨rfl, tail_digits t⟩
      · exact List.forall_mem_nil _
    · exact tail_digits (c :: t)

theorem tail_fractionTail (t : Text) : ∀ c ∈ t.take (fractionTail t), isTailPart c = true := by
  cases t with
  | nil => exact List.forall_mem_nil _
  | cons c t =>
    rw [fractionTail]
    split
    · rename_i hc
      rw [hc, List.take_succ_cons]
      exact List.forall_mem_cons.mpr ⟨rfl, tail_digits t⟩
    · exact List.forall_mem_nil _

/-- What is left when escapes, quotes and comments are taken away. -/
def IsPlain (kind : LexemeKind) : Prop :=
  kind ≠ .escape ∧ kind ≠ .comment ∧ ∀ mark, kind ≠ .quote mark

theorem read_of_isSpace {lenient : Bool} {c : Char} (h : isSpace c = true) (t : Text) :
    read lenient c t = ⟨.blank, Text.runLength isSpace t + 1⟩ := by
  rw [read, if_pos h]

theorem read_of_isQuote {lenient : Bool} {c : Char} (h : isQuote c = true) (t : Text) :
    read lenient c t = ⟨.quote c, 1⟩ := by
  rcases isQuote_iff.mp h with rfl | rfl
  · rfl
  · rfl

/-- **A lexeme that begins with neither white space nor a mark** is plain, and goes on with
tail parts only. -/
theorem exists_tail_of_read (lenient : Bool) {c : Char} (hspace : isSpace c = false)
    (hmark : isMark c = false) (t : Text) :
    IsPlain (read lenient c t).kind ∧
      ∃ n, (read lenient c t).length = n + 1 ∧ ∀ d ∈ t.take n, isTailPart d = true := by
  rw [← Bool.not_eq_true, isMark_iff, not_or, not_or] at hmark
  obtain ⟨hescape, hquote, hcomment⟩ : c ≠ escapeMark ∧ ¬ isQuote c = true ∧ c ≠ commentMark := hmark
  rw [read, if_neg (Bool.not_eq_true _ ▸ hspace)]
  by_cases hpunctuation : isPunctuation c = true
  · rw [if_pos hpunctuation]
    exact ⟨⟨nofun, nofun, nofun⟩, 0, rfl, List.forall_mem_nil _⟩
  rw [if_neg hpunctuation, if_neg hescape, if_neg hquote, if_neg hcomment]
  by_cases hnote : (isNoteName c && pitchNext t) = true
  · rw [if_pos hnote]
    exact ⟨⟨nofun, nofun, nofun⟩, _, rfl, tail_noteTail lenient c t⟩
  rw [if_neg hnote]
  by_cases hsign : (isSign c && digitNext t) = true
  · rw [if_pos hsign]
    exact ⟨⟨nofun, nofun, nofun⟩, _, rfl, tail_digits t⟩
  rw [if_neg hsign]
  by_cases hdigit : isDigit c = true
  · rw [if_pos hdigit]
    refine ⟨⟨nofun, nofun, nofun⟩, _, rfl, ?_⟩
    rw [List.take_add, List.forall_mem_append]
    exact ⟨tail_digits t, tail_fractionTail _⟩
  · rw [if_neg hdigit]
    refine ⟨⟨nofun, nofun, nofun⟩, _, rfl, fun d hd => ?_⟩
    exact isTailPart_of_isWordPart (Text.of_mem_take_runLength hd)

/-- **A mark begins its lexeme, or there is none in it.** -/
theorem read_cases (lenient : Bool) (c : Char) (t : Text) :
    (c = escapeMark ∧ read lenient c t = ⟨.escape, min t.length 1 + 1⟩) ∨
    (isQuote c = true ∧ read lenient c t = ⟨.quote c, 1⟩) ∨
    (c = commentMark ∧ read lenient c t = ⟨.comment, t.length + 1⟩) ∨
    (IsPlain (read lenient c t).kind ∧
      Markless ((c :: t).take (read lenient c t).length)) := by
  by_cases hmark : isMark c = true
  · rcases isMark_iff.mp hmark with rfl | hquote | rfl
    · exact Or.inl ⟨rfl, rfl⟩
    · exact Or.inr (Or.inl ⟨hquote, read_of_isQuote hquote t⟩)
    · exact Or.inr (Or.inr (Or.inl ⟨rfl, rfl⟩))
  rw [Bool.not_eq_true] at hmark
  right; right; right
  by_cases hspace : isSpace c = true
  · rw [read_of_isSpace hspace]
    refine ⟨⟨nofun, nofun, nofun⟩, .cons hmark fun d hd => ?_⟩
    exact not_isMark_of_class rfl rfl rfl rfl (Text.of_mem_take_runLength hd)
  · rw [Bool.not_eq_true] at hspace
    obtain ⟨hplain, n, hn, htail⟩ := exists_tail_of_read lenient hspace hmark t
    rw [hn, List.take_succ_cons]
    exact ⟨hplain, .cons hmark fun d hd => not_isMark_of_isTailPart (htail d hd)⟩

end Lexeme

end ChipHighlight
