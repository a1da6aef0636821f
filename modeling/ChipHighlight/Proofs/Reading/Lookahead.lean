import ChipHighlight.Proofs.Lexeme.Marks
import ChipHighlight.Reading

/-!
# How far a reading looks

A reading looks at the characters that it takes and at one more.  `SameAhead n t u` says
that two texts cannot be told apart by that: they have the first `n` characters in common,
and then the same character comes next, or both end.  If `n` characters are read at `t`
and `SameAhead n t u`, then the reading at `u` is the same (`readNext_of_sameAhead`).

The one more is looked at by runs, which stop in front of it, and by a note letter and a
sign, which want a sharp or a digit behind them.  A comment and a literal that stays open
look at the end of the line in its place.
-/

namespace ChipHighlight

/-- Two texts with the same first `n` characters, and the same character behind them or
the end. -/
def SameAhead (n : Nat) (t u : Text) : Prop := t.take (n + 1) = u.take (n + 1)

namespace SameAhead

variable {n : Nat} {c : Char} {t u : Text}

theorem of_take (htake : t.take n = u.take n) (hnext : t[n]? = u[n]?) : SameAhead n t u := by
  rw [SameAhead, List.take_add_one, List.take_add_one, htake, hnext]

theorem append_right (h : n < t.length) (u : Text) : SameAhead n t (t ++ u) :=
  (List.take_append_of_le_length h).symm

theorem mono {m : Nat} (h : SameAhead n t u) (hm : m ≤ n) : SameAhead m t u := by
  have htake := congrArg (List.take (m + 1)) h
  rwa [List.take_take, List.take_take, Nat.min_eq_left (by omega)] at htake

theorem take_eq (h : SameAhead n t u) {m : Nat} (hm : m ≤ n + 1) : t.take m = u.take m := by
  have htake := congrArg (List.take m) h
  rwa [List.take_take, List.take_take, Nat.min_eq_left hm] at htake

theorem drop {m : Nat} (h : SameAhead (m + n) t u) : SameAhead n (t.drop m) (u.drop m) := by
  have hdrop := congrArg (List.drop m) h
  rwa [List.drop_take, List.drop_take, Nat.add_assoc, Nat.add_sub_cancel_left] at hdrop

theorem eq_nil (h : SameAhead n [] u) : u = [] := by
  cases u with
  | nil => rfl
  | cons d u => exact absurd h nofun

theorem exists_cons (h : SameAhead n (c :: t) u) : ∃ v, u = c :: v := by
  cases u with
  | nil => exact absurd h nofun
  | cons d v =>
    obtain ⟨rfl, -⟩ := List.cons_eq_cons.mp h
    exact ⟨v, rfl⟩

theorem of_cons {v : Text} (h : SameAhead (n + 1) (c :: t) (c :: v)) : SameAhead n t v :=
  (List.cons_eq_cons.mp h).2

/-- A text that is read to its end has to end where the other one does. -/
theorem eq_of_length_le (h : SameAhead n t u) (hn : t.length ≤ n) : u = t := by
  have hlen := congrArg List.length h
  rw [List.length_take, List.length_take] at hlen
  rw [SameAhead, List.take_of_length_le (by omega), List.take_of_length_le (by omega)] at h
  exact h.symm

end SameAhead

/-! ### Lexemes -/

theorem Text.runLength_of_sameAhead {p : Char → Bool} {t u : Text}
    (h : SameAhead (runLength p t) t u) : runLength p u = runLength p t := by
  induction t generalizing u with
  | nil => rw [h.eq_nil]
  | cons c t ih =>
    obtain ⟨v, rfl⟩ := h.exists_cons
    rw [runLength_cons] at h
    rw [runLength_cons, runLength_cons]
    split at h
    · rw [if_pos ‹_›, if_pos ‹_›, ih h.of_cons]
    · rw [if_neg ‹_›, if_neg ‹_›]

namespace Lexeme

variable {t u : Text}

theorem digitNext_of_sameAhead {n : Nat} (h : SameAhead n t u) : digitNext u = digitNext t := by
  cases t with
  | nil => rw [h.eq_nil]
  | cons c t =>
    obtain ⟨v, rfl⟩ := h.exists_cons
    rfl

theorem pitchNext_of_sameAhead {n : Nat} (h : SameAhead n t u) : pitchNext u = pitchNext t := by
  cases t with
  | nil => rw [h.eq_nil]
  | cons c t =>
    obtain ⟨v, rfl⟩ := h.exists_cons
    rfl

theorem digits_of_sameAhead (h : SameAhead (digits t) t u) : digits u = digits t :=
  Text.runLength_of_sameAhead h

theorem noteTail_of_sameAhead {lenient : Bool} {letter : Char}
    (h : SameAhead (noteTail lenient letter t) t u) :
    noteTail lenient letter u = noteTail lenient letter t := by
  cases t with
  | nil => rw [h.eq_nil]
  | cons c t =>
    obtain ⟨v, rfl⟩ := h.exists_cons
    rw [noteTail] at h
    rw [noteTail, noteTail]
    by_cases hsharp : c = sharpMark
    · rw [if_pos hsharp] at h
      rw [if_pos hsharp, if_pos hsharp]
      split at h
      · rw [if_pos ‹_›, if_pos ‹_›, digits_of_sameAhead h.of_cons]
      · rw [if_neg ‹_›, if_neg ‹_›]
    · rw [if_neg hsharp] at h
      rw [if_neg hsharp, if_neg hsharp, digits_of_sameAhead h]

theorem fractionTail_of_sameAhead (h : SameAhead (fractionTail t) t u) :
    fractionTail u = fractionTail t := by
  cases t with
  | nil => rw [h.eq_nil]
  | cons c t =>
    obtain ⟨v, rfl⟩ := h.exists_cons
    rw [fractionTail] at h
    rw [fractionTail, fractionTail]
    split at h
    · rw [if_pos ‹_›, if_pos ‹_›, digits_of_sameAhead h.of_cons]
    · rw [if_neg ‹_›, if_neg ‹_›]

/-- **A lexeme looks one character ahead.**  It takes `n` characters behind its first. -/
theorem read_of_sameAhead {lenient : Bool} {c : Char} {n : Nat}
    (hn : (read lenient c t).length = n + 1) (h : SameAhead n t u) :
    read lenient c u = read lenient c t := by
  unfold read at hn ⊢
  rw [digitNext_of_sameAhead h, pitchNext_of_sameAhead h]
  by_cases hspace : isSpace c = true
  · rw [if_pos hspace] at hn
    obtain rfl := Nat.succ.inj hn
    rw [if_pos hspace, if_pos hspace, Text.runLength_of_sameAhead h]
  rw [if_neg hspace] at hn
  rw [if_neg hspace, if_neg hspace]
  by_cases hpunctuation : isPunctuation c = true
  · rw [if_pos hpunctuation, if_pos hpunctuation]
  rw [if_neg hpunctuation] at hn
  rw [if_neg hpunctuation, if_neg hpunctuation]
  by_cases hescape : c = escapeMark
  · -- the line ends behind the backslash, or the character that it hides is there in both
    rw [if_pos hescape, if_pos hescape]
    cases t with
    | nil => rw [h.eq_nil]
    | cons d t =>
      obtain ⟨v, rfl⟩ := h.exists_cons
      simp
  rw [if_neg hescape] at hn
  rw [if_neg hescape, if_neg hescape]
  by_cases hquote : isQuote c = true
  · rw [if_pos hquote, if_pos hquote]
  rw [if_neg hquote] at hn
  rw [if_neg hquote, if_neg hquote]
  by_cases hcomment : c = commentMark
  · rw [if_pos hcomment] at hn
    obtain rfl := Nat.succ.inj hn
    rw [if_pos hcomment, if_pos hcomment, h.eq_of_length_le (Nat.le_refl _)]
  rw [if_neg hcomment] at hn
  rw [if_neg hcomment, if_neg hcomment]
  by_cases hnote : (isNoteName c && pitchNext t) = true
  · rw [if_pos hnote] at hn
    obtain rfl := Nat.succ.inj hn
    rw [if_pos hnote, if_pos hnote, noteTail_of_sameAhead h]
  rw [if_neg hnote] at hn
  rw [if_neg hnote, if_neg hnote]
  by_cases hsign : (isSign c && digitNext t) = true
  · rw [if_pos hsign] at hn
    obtain rfl := Nat.succ.inj hn
    rw [if_pos hsign, if_pos hsign, digits_of_sameAhead h]
  rw [if_neg hsign] at hn
  rw [if_neg hsign, if_neg hsign]
  by_cases hdigit : isDigit c = true
  · rw [if_pos hdigit] at hn
    obtain rfl := Nat.succ.inj hn
    rw [if_pos hdigit, if_pos hdigit, digits_of_sameAhead (h.mono (Nat.le_add_right _ _)),
      fractionTail_of_sameAhead h.drop]
  · rw [if_neg hdigit] at hn
    obtain rfl := Nat.succ.inj hn
    rw [if_neg hdigit, if_neg hdigit, Text.runLength_of_sameAhead h]

end Lexeme

/-! ### Literals -/

/-- **A literal looks at what it takes**, and at the end of the line if it stays open. -/
theorem Literal.read_of_sameAhead {a : Literal} {outer : Stack} {t u : Text}
    (h : SameAhead (a.read outer t).length t u) : a.read outer u = a.read outer t := by
  induction t generalizing a outer u with
  | nil => rw [h.eq_nil]
  | cons c t ih =>
    obtain ⟨v, rfl⟩ := h.exists_cons
    rw [read_cons] at h
    rw [read_cons, read_cons]
    by_cases hcloses : a.closesAt c = true
    · rw [if_pos hcloses, if_pos hcloses]
    rw [if_neg hcloses] at h
    rw [if_neg hcloses, if_neg hcloses]
    by_cases hopens : a.opensAt c = true
    · rw [if_pos hopens] at h
      rw [if_pos hopens, if_pos hopens, ih h.of_cons]
    · rw [if_neg hopens] at h
      rw [if_neg hopens, if_neg hopens, ih h.of_cons]

/-! ### Readings -/

variable {rules : Rules}

theorem Lexeme.kind_ne_quote {lenient : Bool} {c : Char} (h : ¬ isQuote c = true) (t : Text)
    (mark : Char) : (read lenient c t).kind ≠ .quote mark := by
  obtain ⟨-, hread⟩ | ⟨hquote, -⟩ | ⟨-, hread⟩ | ⟨⟨-, -, hplain⟩, -⟩ := read_cases lenient c t
  · rw [hread]
    exact nofun
  · exact absurd hquote h
  · rw [hread]
    exact nofun
  · exact hplain mark

theorem readLexeme_of_isQuote {c : Char} (h : isQuote c = true) (t : Text) :
    readLexeme rules c t = Literal.opened c rules.literalStyle t := by
  rw [readLexeme, Lexeme.read_of_isQuote h]
  rfl

theorem readLexeme_of_not_isQuote {c : Char} (h : ¬ isQuote c = true) (t : Text) :
    readLexeme rules c t =
      ⟨(Lexeme.read rules.lenient c t).kind.style rules
          ((c :: t).take (Lexeme.read rules.lenient c t).length),
        (Lexeme.read rules.lenient c t).length, []⟩ := by
  unfold readLexeme Lexeme.reading
  split
  · rename_i mark hkind
    exact absurd hkind (Lexeme.kind_ne_quote h t mark)
  · rfl

theorem readLexeme_of_sameAhead {c : Char} {t u : Text}
    (h : SameAhead (readLexeme rules c t).length (c :: t) (c :: u)) :
    readLexeme rules c u = readLexeme rules c t := by
  by_cases hquote : isQuote c = true
  · rw [readLexeme_of_isQuote hquote] at h
    rw [readLexeme_of_isQuote hquote, readLexeme_of_isQuote hquote, Literal.opened,
      Literal.opened, Literal.read_of_sameAhead h.of_cons]
  · rw [readLexeme_of_not_isQuote hquote] at h
    obtain ⟨n, hn⟩ := Nat.exists_eq_add_one.mpr (Lexeme.length_read_pos rules.lenient c t)
    dsimp only at h
    rw [hn] at h
    have hread := Lexeme.read_of_sameAhead hn h.of_cons
    rw [readLexeme_of_not_isQuote hquote, readLexeme_of_not_isQuote hquote, hread, hn,
      h.take_eq (Nat.le_succ _)]

/-- **A reading looks one character ahead**, and not back. -/
theorem readNext_of_sameAhead {stack : Stack} {t u : Text}
    (h : SameAhead (readNext rules stack t).length t u) :
    readNext rules stack u = readNext rules stack t := by
  cases t with
  | nil => rw [h.eq_nil]
  | cons c t =>
    obtain ⟨v, rfl⟩ := h.exists_cons
    cases stack with
    | nil => exact readLexeme_of_sameAhead h
    | cons a outer =>
      have hread : a.read outer (c :: v) = a.read outer (c :: t) := Literal.read_of_sameAhead h
      show Literal.reading a outer (c :: v) = Literal.reading a outer (c :: t)
      rw [Literal.reading, Literal.reading, hread]

end ChipHighlight
