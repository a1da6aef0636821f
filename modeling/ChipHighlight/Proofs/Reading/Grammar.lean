import ChipHighlight.Proofs.Reading.Lookahead
import ChipHighlight.Proofs.Text.LongestMatch

/-!
# The grammar of lexemes

What the lexemes are can be said without a word on how they are read.  A `Pattern` is a set
of texts, together with what a text has to begin with for the pattern to apply to it.  The
`grammar` lists the patterns, and at the beginning of a text the first one that applies is
taken in its longest match there (`Munches`).  As long as no quote comes next, this is what a
reading finds (`exists_munches_readLexeme`).
-/

namespace ChipHighlight

open scoped Computability

/-! ### Patterns -/

/-- **A pattern of the notation**: what a text begins with where it applies, the texts that it
matches, and the style that a match is shown in. -/
structure Pattern where
  first : Char → Bool
  /-- What comes next, where that matters. -/
  second : Option (Char → Bool) := none
  words : Language Char
  style : Text → Option Style

namespace Pattern

def applies (pattern : Pattern) : Text → Bool
  | [] => false
  | c :: t => pattern.first c && pattern.second.all t.head?.any

def blank : Pattern where
  first := isSpace
  words := oneOf isSpace * (oneOf isSpace)∗
  style _ := none

def punctuation : Pattern where
  first := isPunctuation
  words := oneOf isPunctuation
  style _ := some .punctuation

/-- A backslash, and the character that it hides if there is one. -/
def escape : Pattern where
  first := (· == escapeMark)
  words := only escapeMark * (1 + anyChar)
  style _ := none

def comment : Pattern where
  first := (· == commentMark)
  words := only commentMark * anyChar∗
  style _ := some .comment

/-- The letter of a note, its sharp if it may have one, and its octave. -/
def note (lenient : Bool) : Pattern where
  first := isNoteName
  second := some fun d => d == sharpMark || isDigit d
  words := oneOf isNoteName * (oneOf isDigit)∗ +
    oneOf (fun c => isNoteName c && (lenient || hasSharp c)) * only sharpMark * (oneOf isDigit)∗
  style _ := some .note

def signed : Pattern where
  first := isSign
  second := some isDigit
  words := oneOf isSign * oneOf isDigit * (oneOf isDigit)∗
  style _ := some .number

/-- Digits, and a fraction mark with more digits or none behind it. -/
def number : Pattern where
  first := isDigit
  words := oneOf isDigit * (oneOf isDigit)∗ * (1 + only fractionMark * (oneOf isDigit)∗)
  style _ := some .number

def word (rules : Rules) : Pattern where
  first _ := true
  words := anyChar * (oneOf isWordPart)∗
  style spelling :=
    if spelling ∈ Keyword.words ∨ spelling ∈ rules.keywords.toList then some .keyword else none

end Pattern

/-- **The grammar of lexemes** that are no quotes, in the order in which the patterns are
tried. -/
def grammar (rules : Rules) : List Pattern :=
  [.blank, .punctuation, .escape, .comment, .note rules.lenient, .signed, .number, .word rules]

theorem mem_grammar_iff {rules : Rules} {pattern : Pattern} :
    pattern ∈ grammar rules ↔ pattern = .blank ∨ pattern = .punctuation ∨ pattern = .escape ∨
      pattern = .comment ∨ pattern = .note rules.lenient ∨ pattern = .signed ∨
      pattern = .number ∨ pattern = .word rules := by
  simp only [grammar, List.mem_cons, List.not_mem_nil, or_false]

/-- **What the grammar makes of the beginning of a text**: the longest match of the first
pattern that applies. -/
structure Munches (rules : Rules) (t : Text) (pattern : Pattern) (taken : Text) : Prop where
  first : (grammar rules).find? (·.applies t) = some pattern
  longest : LongestIn pattern.words t taken

/-! ### Matches of the patterns -/

variable {rules : Rules} {c : Char} {t : Text}

theorem longestIn_hidden (t : Text) : LongestIn (1 + anyChar) t (t.take (min t.length 1)) := by
  cases t with
  | nil =>
    refine .option_of_none fun other hother hinitial => ?_
    obtain ⟨c, rfl, -⟩ := hother
    exact List.cons_ne_nil c [] (List.prefix_nil.mp hinitial)
  | cons c t =>
    rw [List.length_cons, Nat.min_eq_right (Nat.succ_pos _), List.take_succ_cons, List.take_zero]
    exact .option (.single rfl)

theorem longestIn_rest (t : Text) : LongestIn anyChar∗ t t :=
  .of_mem (mem_star_oneOf.mpr fun _ _ => rfl)

theorem longestIn_signed (hc : isSign c = true) (hnext : Lexeme.digitNext t = true) :
    LongestIn Pattern.signed.words (c :: t) ((c :: t).take (Lexeme.digits t + 1)) := by
  cases t with
  | nil => cases hnext
  | cons d t =>
    have hd : isDigit d = true := hnext
    rw [Pattern.signed, mul_assoc, List.take_succ_cons, Lexeme.digits, Text.runLength_cons,
      if_pos hd, List.take_succ_cons, Text.take_runLength]
    exact .cons hc (.cons hd (.star isDigit t))

theorem longestIn_fraction (t : Text) :
    LongestIn (1 + only fractionMark * (oneOf isDigit)∗) t (t.take (Lexeme.fractionTail t)) := by
  cases t with
  | nil =>
    refine .option_of_none fun other hother hinitial => ?_
    obtain ⟨d, u, rfl, -⟩ := mem_oneOf_mul.mp hother
    exact List.cons_ne_nil d u (List.prefix_nil.mp hinitial)
  | cons c t =>
    rw [Lexeme.fractionTail]
    by_cases hc : c = fractionMark
    · subst hc
      rw [if_pos rfl, List.take_succ_cons, Lexeme.digits, Text.take_runLength]
      exact .option (.only_cons (.star isDigit t))
    · rw [if_neg hc, List.take_zero]
      refine .option_of_none fun other hother hinitial => ?_
      obtain ⟨d, u, rfl, hd, -⟩ := mem_oneOf_mul.mp hother
      exact hc ((List.cons_prefix_cons.mp hinitial).1.symm.trans (beq_iff_eq.mp hd))

theorem longestIn_number (hc : isDigit c = true) (t : Text) :
    LongestIn Pattern.number.words (c :: t)
      ((c :: t).take (Lexeme.digits t + Lexeme.fractionTail (t.drop (Lexeme.digits t)) + 1)) := by
  have hmark : ∀ word ∈ 1 + only fractionMark * (oneOf isDigit)∗, ∀ d ∈ word.head?,
      isDigit d = false := by
    rintro word (hword | hword) d hd
    · rw [(Language.mem_one word).mp hword] at hd
      cases hd
    · obtain ⟨e, u, rfl, he, -⟩ := mem_oneOf_mul.mp hword
      cases hd
      rw [beq_iff_eq.mp he]
      rfl
  have htail := LongestIn.star_mul (t := t) hmark (longestIn_fraction _)
  rw [Pattern.number, mul_assoc, List.take_succ_cons, List.take_add, Lexeme.digits,
    Text.take_runLength, Text.drop_runLength]
  exact .cons hc htail

theorem length_le_of_before_sharp {other u : Text} (h : other ∈ oneOf isNoteName * (oneOf isDigit)∗)
    (hinitial : other <+: c :: sharpMark :: u) : other.length ≤ 1 := by
  obtain ⟨d, octave, rfl, -, hdigits⟩ := mem_oneOf_mul.mp h
  cases octave with
  | nil => exact Nat.le_refl 1
  | cons e octave =>
    obtain ⟨rfl, -⟩ := List.cons_prefix_cons.mp (List.cons_prefix_cons.mp hinitial).2
    exact absurd (mem_star_oneOf.mp hdigits _ List.mem_cons_self) (by decide)

theorem noteTail_of_not_raised {lenient : Bool}
    (h : ¬ ∃ u, t = sharpMark :: u ∧ (lenient || hasSharp c) = true) :
    Lexeme.noteTail lenient c t = Lexeme.digits t := by
  cases t with
  | nil => rfl
  | cons d u =>
    rw [Lexeme.noteTail]
    by_cases hsharp : d = sharpMark
    · subst hsharp
      rw [if_pos rfl, if_neg fun hraised => h ⟨u, rfl, hraised⟩]
      rfl
    · rw [if_neg hsharp]

/-- A sharp is taken if the note may have one; a note that may not is its letter alone. -/
theorem longestIn_note (lenient : Bool) (hc : isNoteName c = true) (t : Text) :
    LongestIn (Pattern.note lenient).words (c :: t)
      ((c :: t).take (Lexeme.noteTail lenient c t + 1)) := by
  rw [Pattern.note, List.take_succ_cons, mul_assoc]
  by_cases hraised : ∃ u, t = sharpMark :: u ∧ (lenient || hasSharp c) = true
  · obtain ⟨u, rfl, hraised⟩ := hraised
    rw [Lexeme.noteTail, if_pos rfl, if_pos hraised, List.take_succ_cons, Lexeme.digits,
      Text.take_runLength, add_comm]
    have hletter := Bool.and_eq_true_iff.mpr ⟨hc, hraised⟩
    refine (LongestIn.cons (p := fun c => isNoteName c && (lenient || hasSharp c)) hletter
      (.only_cons (.star isDigit u))).add_of_le ?_
    intro other hother hinitial
    exact (length_le_of_before_sharp hother hinitial).trans (Nat.le_add_left _ _)
  · rw [noteTail_of_not_raised hraised, Lexeme.digits, Text.take_runLength]
    refine (LongestIn.cons hc (.star isDigit t)).add_of_le ?_
    intro other hother hinitial
    -- a raised note would be one that is not raised here
    obtain ⟨d, v, rfl, hd, hv⟩ := mem_oneOf_mul.mp hother
    obtain ⟨e, w, rfl, he, -⟩ := mem_oneOf_mul.mp hv
    obtain ⟨rfl, u, hu⟩ := List.cons_prefix_cons.mp hinitial
    rw [beq_iff_eq.mp he] at hu
    exact absurd ⟨w ++ u, hu.symm, (Bool.and_eq_true_iff.mp hd).2⟩ hraised

/-! ### The reading -/

theorem style_word (rules : Rules) (spelling : Text) :
    (Pattern.word rules).style spelling = wordStyle rules spelling := by
  unfold Pattern.word wordStyle Keyword.style? Keyword.isReserved
  by_cases hreserved : spelling ∈ Keyword.words
  · rw [if_pos (List.contains_iff_mem.mpr hreserved)]
    exact if_pos (Or.inl hreserved)
  · rw [if_neg (mt List.contains_iff_mem.mp hreserved)]
    exact if_congr ((or_iff_right hreserved).trans WordSet.contains_iff.symm) rfl rfl

theorem find?_cons_ite {α : Type*} {p : α → Bool} {a b : α} {l : List α} (h : l.find? p = some b) :
    (a :: l).find? p = some (if p a then a else b) := by
  by_cases ha : p a = true
  · rw [List.find?_cons_of_pos ha, if_pos ha]
  · rw [List.find?_cons_of_neg ha, if_neg ha, h]

/-- **The pattern that applies first**, as one choice after the other. -/
theorem find?_grammar (rules : Rules) (c : Char) (t : Text) :
    (grammar rules).find? (·.applies (c :: t)) = some (
      if isSpace c then .blank
      else if isPunctuation c then .punctuation
      else if c = escapeMark then .escape
      else if c = commentMark then .comment
      else if isNoteName c && Lexeme.pitchNext t then .note rules.lenient
      else if isSign c && Lexeme.digitNext t then .signed
      else if isDigit c then .number
      else .word rules) := by
  have hpitch : t.head?.any (fun d => d == sharpMark || isDigit d) = Lexeme.pitchNext t := by
    cases t <;> rfl
  have hdigit : t.head?.any isDigit = Lexeme.digitNext t := by
    cases t <;> rfl
  refine (find?_cons_ite <| find?_cons_ite <| find?_cons_ite <| find?_cons_ite <| find?_cons_ite <|
    find?_cons_ite <| find?_cons_ite <| List.find?_cons_of_pos rfl).trans ?_
  simp only [Pattern.applies, Pattern.blank, Pattern.punctuation, Pattern.escape, Pattern.comment,
    Pattern.note, Pattern.signed, Pattern.number, Option.all_none, Option.all_some, Bool.and_true,
    beq_iff_eq, hpitch, hdigit]

theorem exists_munches_read (rules : Rules) {c : Char} (hquote : ¬ isQuote c = true) (t : Text) :
    ∃ pattern, Munches rules (c :: t) pattern
        ((c :: t).take (Lexeme.read rules.lenient c t).length) ∧
      ∀ spelling,
        (Lexeme.read rules.lenient c t).kind.style rules spelling = pattern.style spelling := by
  have hfirst := find?_grammar rules c t
  rw [Lexeme.read]
  by_cases hspace : isSpace c = true
  · rw [if_pos hspace] at hfirst
    rw [if_pos hspace, List.take_succ_cons, Text.take_runLength]
    exact ⟨_, ⟨hfirst, .cons hspace (.star isSpace t)⟩, fun _ => rfl⟩
  rw [if_neg hspace] at hfirst
  rw [if_neg hspace]
  by_cases hpunctuation : isPunctuation c = true
  · rw [if_pos hpunctuation] at hfirst
    rw [if_pos hpunctuation]
    exact ⟨_, ⟨hfirst, .single hpunctuation⟩, fun _ => rfl⟩
  rw [if_neg hpunctuation] at hfirst
  rw [if_neg hpunctuation]
  by_cases hescape : c = escapeMark
  · subst hescape
    rw [if_pos rfl] at hfirst
    rw [if_pos rfl, List.take_succ_cons]
    exact ⟨_, ⟨hfirst, .only_cons (longestIn_hidden t)⟩, fun _ => rfl⟩
  rw [if_neg hescape] at hfirst
  rw [if_neg hescape, if_neg hquote]
  by_cases hcomment : c = commentMark
  · subst hcomment
    rw [if_pos rfl] at hfirst
    rw [if_pos rfl, List.take_succ_cons, List.take_length]
    exact ⟨_, ⟨hfirst, .only_cons (longestIn_rest t)⟩, fun _ => rfl⟩
  rw [if_neg hcomment] at hfirst
  rw [if_neg hcomment]
  by_cases hnote : (isNoteName c && Lexeme.pitchNext t) = true
  · rw [if_pos hnote] at hfirst
    rw [if_pos hnote]
    exact ⟨_, ⟨hfirst, longestIn_note _ (Bool.and_eq_true_iff.mp hnote).1 t⟩, fun _ => rfl⟩
  rw [if_neg hnote] at hfirst
  rw [if_neg hnote]
  by_cases hsign : (isSign c && Lexeme.digitNext t) = true
  · rw [if_pos hsign] at hfirst
    rw [if_pos hsign]
    obtain ⟨hc, hnext⟩ := Bool.and_eq_true_iff.mp hsign
    exact ⟨_, ⟨hfirst, longestIn_signed hc hnext⟩, fun _ => rfl⟩
  rw [if_neg hsign] at hfirst
  rw [if_neg hsign]
  by_cases hdigit : isDigit c = true
  · rw [if_pos hdigit] at hfirst
    rw [if_pos hdigit]
    exact ⟨_, ⟨hfirst, longestIn_number hdigit t⟩, fun _ => rfl⟩
  · rw [if_neg hdigit] at hfirst
    rw [if_neg hdigit, List.take_succ_cons, Text.take_runLength]
    exact ⟨_, ⟨hfirst, .cons rfl (.star isWordPart t)⟩,
      fun spelling => (style_word rules spelling).symm⟩

/-- **A reading outside of literals is a maximal munch.**  At the beginning of a text, but for a
quote, it takes the longest match of the first pattern that applies, in the style of that
pattern, and opens nothing. -/
theorem exists_munches_readLexeme (rules : Rules) {c : Char} (hquote : ¬ isQuote c = true)
    (t : Text) :
    ∃ pattern taken, Munches rules (c :: t) pattern taken ∧
      readLexeme rules c t = ⟨pattern.style taken, taken.length, []⟩ := by
  obtain ⟨pattern, hmunches, hstyle⟩ := exists_munches_read rules hquote t
  refine ⟨pattern, _, hmunches, ?_⟩
  have hle : (Lexeme.read rules.lenient c t).length ≤ (c :: t).length :=
    Lexeme.length_read_le _ c t
  rw [readLexeme_of_not_isQuote hquote, hstyle, List.length_take_of_le hle]

end ChipHighlight
