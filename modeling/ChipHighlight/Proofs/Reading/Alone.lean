import ChipHighlight.Proofs.Lexeme.Sharps
import ChipHighlight.Proofs.Line.Cut
import ChipHighlight.Proofs.Reading.Grammar

/-!
# What is read, on its own

Outside of literals a reading takes some text; and when that text is read as a line of its
own, it is taken as a whole, in the same style and with the same literals open behind it.

For a lexeme this is seen from the grammar.  What applies to a beginning of a text applies to
the text, so no earlier pattern applies to what was taken; and the pattern that did apply still
does, since what it wants to see is part of its match.  The one exception is a letter in front
of a sharp that is left (`Munches.alone_cases`): the sharp makes it a note, and on its own it
is a word.
-/

namespace ChipHighlight

open scoped Computability

variable {rules : Rules} {pattern : Pattern} {t taken spelling : Text}

namespace Pattern

theorem applies_of_initial (h : taken <+: t) (happlies : pattern.applies taken = true) :
    pattern.applies t = true := by
  obtain ⟨rest, rfl⟩ := h
  match taken, happlies with
  | [c], happlies =>
    obtain ⟨hfirst, hsecond⟩ := Bool.and_eq_true_iff.mp happlies
    refine Bool.and_eq_true_iff.mpr ⟨hfirst, ?_⟩
    cases hq : pattern.second with
    | none => rfl
    | some q =>
      rw [hq] at hsecond
      cases hsecond
  | _ :: _ :: _, happlies => exact happlies

/-- A match begins with what its pattern wants to see first. -/
theorem exists_first (hpattern : pattern ∈ grammar rules) (hmem : spelling ∈ pattern.words) :
    ∃ c u, spelling = c :: u ∧ pattern.first c = true := by
  have hbegin : ∀ {p : Char → Bool} {words : Language Char}, spelling ∈ oneOf p * words →
      ∃ c u, spelling = c :: u ∧ p c = true := by
    intro p words h
    obtain ⟨c, u, hcons, hc, -⟩ := mem_oneOf_mul.mp h
    exact ⟨c, u, hcons, hc⟩
  obtain rfl | rfl | rfl | rfl | rfl | rfl | rfl | rfl := mem_grammar_iff.mp hpattern
  · exact hbegin hmem
  · obtain ⟨c, rfl, hc⟩ := hmem
    exact ⟨c, [], rfl, hc⟩
  · exact hbegin hmem
  · exact hbegin hmem
  · rcases hmem with hplain | hraised
    · exact hbegin hplain
    · rw [mul_assoc] at hraised
      obtain ⟨c, u, hcons, hc⟩ := hbegin hraised
      exact ⟨c, u, hcons, (Bool.and_eq_true_iff.mp hc).1⟩
  · rw [signed, mul_assoc] at hmem
    exact hbegin hmem
  · rw [number, mul_assoc] at hmem
    exact hbegin hmem
  · exact hbegin hmem

theorem applies_of_second_none (hpattern : pattern ∈ grammar rules)
    (hsecond : pattern.second = none) (hmem : spelling ∈ pattern.words) :
    pattern.applies spelling = true := by
  obtain ⟨c, u, rfl, hc⟩ := exists_first hpattern hmem
  rw [applies, hc, hsecond]
  rfl

theorem signed_applies_of_mem (hmem : spelling ∈ signed.words) :
    signed.applies spelling = true := by
  rw [signed, mul_assoc] at hmem
  obtain ⟨c, u, rfl, hc, hu⟩ := mem_oneOf_mul.mp hmem
  obtain ⟨d, v, rfl, hd, -⟩ := mem_oneOf_mul.mp hu
  exact Bool.and_eq_true_iff.mpr ⟨hc, hd⟩

/-- A letter that cannot be raised is one that has no sharp, and no other takes one either. -/
theorem not_raised {lenient : Bool} {c : Char} (hname : isNoteName c = true)
    (h : ¬ (lenient || hasSharp c) = true) : lenient = false ∧ [c] ∈ sharpless := by
  rw [Bool.or_eq_true, not_or, Bool.not_eq_true, Bool.not_eq_true] at h
  exact ⟨h.1, mem_sharpless hname h.2⟩

theorem note_applies_cases {lenient : Bool} (happlies : (note lenient).applies t = true)
    (h : LongestIn (note lenient).words t taken) :
    (note lenient).applies taken = true ∨ lenient = false ∧ taken ∈ sharpless := by
  rcases h.mem with hplain | hraised
  · obtain ⟨c, octave, rfl, hc, hoctave⟩ := mem_oneOf_mul.mp hplain
    cases octave with
    | cons d octave =>
      have hd : isDigit d = true := mem_star_oneOf.mp hoctave d List.mem_cons_self
      exact Or.inl (Bool.and_eq_true_iff.mpr ⟨hc, Bool.or_eq_true_iff.mpr (Or.inr hd)⟩)
    | nil =>
      obtain ⟨rest, rfl⟩ := h.initial
      obtain ⟨-, hnext⟩ := Bool.and_eq_true_iff.mp happlies
      cases rest with
      | nil => cases hnext
      | cons d rest =>
        -- with what comes next it would be longer, unless that is a sharp that is left
        have hlonger : ¬ [c, d] ∈ (note lenient).words := fun hmem =>
          Nat.not_succ_le_self 1 (h.longest [c, d] hmem (List.prefix_append [c, d] rest))
        obtain hd | hd := Bool.or_eq_true_iff.mp hnext
        · refine Or.inr (not_raised hc fun hraised => hlonger (Or.inr ?_))
          rw [mul_assoc]
          exact mem_oneOf_mul.mpr ⟨c, [d], rfl, Bool.and_eq_true_iff.mpr ⟨hc, hraised⟩,
            mem_oneOf_mul.mpr ⟨d, [], rfl, hd, Language.nil_mem_kstar _⟩⟩
        · exact absurd (Or.inl (mem_oneOf_mul.mpr ⟨c, [d], rfl, hc,
            mem_star_oneOf.mpr (List.forall_mem_singleton.mpr hd)⟩)) hlonger
  · rw [mul_assoc] at hraised
    obtain ⟨c, u, rfl, hc, hu⟩ := mem_oneOf_mul.mp hraised
    obtain ⟨d, v, rfl, hd, -⟩ := mem_oneOf_mul.mp hu
    exact Or.inl (Bool.and_eq_true_iff.mpr
      ⟨(Bool.and_eq_true_iff.mp hc).1, Bool.or_eq_true_iff.mpr (Or.inl hd)⟩)

/-- **The longest match of a pattern has what the pattern wants to see**, but for a letter
alone. -/
theorem applies_cases (hpattern : pattern ∈ grammar rules) (happlies : pattern.applies t = true)
    (h : LongestIn pattern.words t taken) :
    pattern.applies taken = true ∨
      pattern = .note rules.lenient ∧ rules.lenient = false ∧ taken ∈ sharpless := by
  by_cases hsecond : pattern.second = none
  · exact Or.inl (applies_of_second_none hpattern hsecond h.mem)
  obtain rfl | rfl | rfl | rfl | rfl | rfl | rfl | rfl := mem_grammar_iff.mp hpattern
  · exact absurd rfl hsecond
  · exact absurd rfl hsecond
  · exact absurd rfl hsecond
  · exact absurd rfl hsecond
  · exact (note_applies_cases happlies h).imp_right fun hlone => ⟨rfl, hlone⟩
  · exact Or.inl (signed_applies_of_mem h.mem)
  · exact absurd rfl hsecond
  · exact absurd rfl hsecond

theorem eq_note_of_style (hpattern : pattern ∈ grammar rules)
    (hstyle : pattern.style spelling = some .note) : pattern = .note rules.lenient := by
  obtain rfl | rfl | rfl | rfl | rfl | rfl | rfl | rfl := mem_grammar_iff.mp hpattern
  · cases hstyle
  · cases hstyle
  · cases hstyle
  · cases hstyle
  · rfl
  · cases hstyle
  · cases hstyle
  · unfold word at hstyle
    dsimp only at hstyle
    split at hstyle
    · cases hstyle
    · cases hstyle

end Pattern

namespace Munches

variable {other : Pattern} {taken' : Text}

theorem mem_grammar (h : Munches rules t pattern taken) : pattern ∈ grammar rules :=
  List.mem_of_find?_eq_some h.first

theorem applies (h : Munches rules t pattern taken) : pattern.applies t = true :=
  (List.find?_eq_some_iff_append.mp h.first).1

theorem unique (h : Munches rules t pattern taken) (k : Munches rules t other taken') :
    other = pattern ∧ taken' = taken := by
  obtain rfl := Option.some.inj (k.first.symm.trans h.first)
  exact ⟨rfl, h.longest.unique k.longest⟩

/-- **What the grammar takes, it takes on its own**, but for a letter alone. -/
theorem alone_cases (h : Munches rules t pattern taken) :
    Munches rules taken pattern taken ∨
      pattern = .note rules.lenient ∧ rules.lenient = false ∧ taken ∈ sharpless := by
  obtain ⟨happlies, before, after, hgrammar, hbefore⟩ := List.find?_eq_some_iff_append.mp h.first
  refine (Pattern.applies_cases h.mem_grammar happlies h.longest).imp_left fun halone => ?_
  have hearlier : ∀ earlier ∈ before, !earlier.applies taken := by
    intro earlier hearlier
    have hnot := hbefore earlier hearlier
    rw [Bool.not_eq_true', ← Bool.not_eq_true] at hnot ⊢
    exact fun hown => hnot (Pattern.applies_of_initial h.longest.initial hown)
  exact ⟨List.find?_eq_some_iff_append.mpr ⟨halone, before, after, hgrammar, hearlier⟩,
    .of_mem h.longest.mem⟩

theorem style_ne_note {c : Char} (h : Munches rules [c] pattern taken) :
    pattern.style spelling ≠ some .note := by
  intro hstyle
  obtain rfl := Pattern.eq_note_of_style h.mem_grammar hstyle
  exact Bool.false_ne_true (Bool.and_eq_true_iff.mp h.applies).2

end Munches

/-! ### Readings -/

/-- **A literal on its own**: what was read in it is read again as a whole. -/
theorem Literal.read_take_read (a : Literal) (outer : Stack) (t : Text) :
    a.read outer (t.take (a.read outer t).length) = a.read outer t := by
  obtain ⟨own, hown⟩ : ∃ own, t.take (a.read outer t).length = own := ⟨_, rfl⟩
  obtain ⟨rest, hrest⟩ : ∃ rest, t.drop (a.read outer t).length = rest := ⟨_, rfl⟩
  have ht : own ++ rest = t := by rw [← hown, ← hrest, List.take_append_drop]
  have hlen : (a.read outer t).length = own.length := by
    rw [← hown, List.length_take_of_le (a.length_read_le outer t)]
  rw [hown]
  rcases a.read_append_cases outer own rest with hsame | ⟨inner, around, -, hread, hon⟩
  · rw [← hsame, ht]
  · -- the text would go on in the literal, so there is none left
    rw [ht] at hon
    have hzero : (inner.read around rest).length = 0 := by
      rw [hon] at hlen
      dsimp only at hlen
      omega
    obtain rfl : rest = [] := by
      by_contra hne
      exact absurd hzero (inner.length_read_pos around hne).ne'
    rw [List.append_nil] at ht
    rw [ht]

theorem readLexeme_alone_of_isQuote {c : Char} (hquote : isQuote c = true) (t : Text) :
    readNext rules [] ((c :: t).take (readLexeme rules c t).length) = readLexeme rules c t := by
  rw [readLexeme_of_isQuote hquote, length_opened, List.take_succ_cons, readNext_base,
    readLexeme_of_isQuote hquote, Literal.opened, Literal.read_take_read]
  rfl

theorem style_readNext_ne_note (rules : Rules) (h : spelling ∈ sharpless) :
    (readNext rules [] spelling).style ≠ some .note := by
  obtain ⟨c, rfl, hquote⟩ := exists_letter_of_sharpless h
  obtain ⟨pattern, taken, hmunches, hread⟩ := exists_munches_readLexeme rules hquote []
  rw [readNext_base, hread]
  exact hmunches.style_ne_note

/-- **A reading on its own.**  The text that was read outside of literals is read as a whole, and
alike but for a letter that was read as a note alone. -/
theorem readNext_alone (rules : Rules) (t : Text) :
    let reading := readNext rules [] t
    let own := t.take reading.length
    ∃ style, readNext rules [] own = ⟨style, reading.length, reading.stack⟩ ∧
      (style = reading.style ∨
        rules.lenient = false ∧ LoneNote reading.style own) := by
  intro reading own
  cases t with
  | nil => exact ⟨_, rfl, Or.inl rfl⟩
  | cons c t =>
    by_cases hquote : isQuote c = true
    · exact ⟨reading.style, readLexeme_alone_of_isQuote hquote t, Or.inl rfl⟩
    obtain ⟨pattern, taken, hmunches, hread⟩ := exists_munches_readLexeme rules hquote t
    have hreading : reading = ⟨pattern.style taken, taken.length, []⟩ := hread
    have hown : own = taken := by
      rw [List.prefix_iff_eq_take.mp hmunches.longest.initial]
      exact congrArg (fun r => (c :: t).take r.length) hreading
    rw [hreading, hown]
    obtain ⟨d, u, rfl, -⟩ := Pattern.exists_first hmunches.mem_grammar hmunches.longest.mem
    obtain ⟨rfl, -⟩ := List.cons_prefix_cons.mp hmunches.longest.initial
    obtain ⟨pattern', taken', halone, hread'⟩ := exists_munches_readLexeme rules hquote u
    rw [readNext_base, hread']
    rcases hmunches.alone_cases with hsame | ⟨rfl, hstrict, hletter⟩
    · obtain ⟨rfl, rfl⟩ := hsame.unique halone
      exact ⟨_, rfl, Or.inl rfl⟩
    · obtain ⟨e, hcons, -⟩ := exists_letter_of_sharpless hletter
      obtain ⟨rfl, rfl⟩ := List.cons_eq_cons.mp hcons
      have hlen : taken'.length = 1 := by
        have hpos := length_readLexeme_pos rules d []
        have hle := length_readLexeme_le rules d []
        rw [hread'] at hpos hle
        exact Nat.le_antisymm hle hpos
      exact ⟨_, by rw [hlen]; rfl, Or.inr ⟨hstrict, rfl, hletter⟩⟩

end ChipHighlight
