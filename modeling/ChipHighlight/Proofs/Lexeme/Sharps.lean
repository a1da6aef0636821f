import ChipHighlight.Lexeme
import ChipHighlight.Style

/-!
# Sharps that a note does not have

The three notes that have no sharp (`sharpless`) are read as a letter alone where a sharp
follows, unless every letter takes one.  This is all that there is to the choice: a letter
alone is read as a note nowhere else, and any other lexeme is read alike with either choice
(`read_lenient_cases`).
-/

namespace ChipHighlight

def sharpless : List Text := [['b'], ['e'], ['h']]

theorem mem_sharpless {c : Char} (hname : isNoteName c = true) (hsharp : hasSharp c = false) :
    [c] ∈ sharpless := by
  have hall : ∀ n < 105, isNoteName (Char.ofNat n) = true → hasSharp (Char.ofNat n) = false →
      [Char.ofNat n] ∈ sharpless := by decide
  have hhigh : c ≤ 'h' := of_decide_eq_true (Bool.and_eq_true_iff.mp hname).2
  have hc := hall c.toNat (Nat.lt_succ_of_le (UInt32.le_iff_toNat_le.mp hhigh))
  rw [Char.ofNat_toNat] at hc
  exact hc hname hsharp

theorem exists_letter_of_sharpless {text : Text} (h : text ∈ sharpless) :
    ∃ c, text = [c] ∧ ¬ isQuote c = true := by
  simp only [sharpless, List.mem_cons, List.not_mem_nil, or_false] at h
  obtain rfl | rfl | rfl := h
  all_goals exact ⟨_, rfl, Bool.false_ne_true⟩

/-- **A letter read as a note alone.** -/
def LoneNote (style : Option Style) (text : Text) : Prop :=
  style = some .note ∧ text ∈ sharpless

instance (style : Option Style) (text : Text) : Decidable (LoneNote style text) :=
  inferInstanceAs (Decidable (_ ∧ _))

namespace Lexeme

variable {c : Char} {t : Text}

theorem of_read_note {lenient : Bool} {n : Nat} (h : read lenient c t = ⟨.note, n⟩) :
    isNoteName c = true ∧ pitchNext t = true ∧ n = noteTail lenient c t + 1 := by
  unfold read at h
  repeat' split at h
  all_goals try cases h
  rename_i hnote
  obtain ⟨hname, hpitch⟩ := Bool.and_eq_true_iff.mp hnote
  exact ⟨hname, hpitch, rfl⟩

theorem noteTail_eq_zero_iff {lenient : Bool} (hpitch : pitchNext t = true) :
    noteTail lenient c t = 0 ↔ ∃ u, t = sharpMark :: u ∧ (lenient || hasSharp c) = false := by
  cases t with
  | nil => cases hpitch
  | cons d u =>
    rw [noteTail]
    by_cases hsharp : d = sharpMark
    · subst hsharp
      rw [if_pos rfl]
      cases lenient || hasSharp c <;> simp
    · have hdigit : isDigit d = true := by simpa [pitchNext, hsharp] using hpitch
      rw [if_neg hsharp, digits, Text.runLength_cons, if_pos hdigit]
      simp [hsharp]

/-- Only what belongs to a note can depend on the choice. -/
theorem read_lenient_eq (h : isNoteName c = true → noteTail true c t = noteTail false c t) :
    read true c t = read false c t := by
  unfold read
  by_cases hname : isNoteName c = true
  · rw [h hname]
  · rw [Bool.not_eq_true] at hname
    simp only [hname, Bool.false_and, Bool.false_eq_true, if_false]

/-- **What the choice of sharps changes.**  A lexeme is read alike with either choice; or it is a
letter alone, in front of a sharp that it does not have and would be read with. -/
theorem read_lenient_cases (c : Char) (t : Text) :
    (read true c t = read false c t ∧ read false c t ≠ ⟨.note, 1⟩) ∨
    ([c] ∈ sharpless ∧ read false c t = ⟨.note, 1⟩ ∧ 1 < (read true c t).length) := by
  by_cases hlone : ∃ u, t = sharpMark :: u ∧ [c] ∈ sharpless
  · obtain ⟨u, rfl, hletter⟩ := hlone
    refine Or.inr ⟨hletter, ?_⟩
    simp only [sharpless, List.mem_cons, List.cons.injEq, and_true, List.not_mem_nil,
      or_false] at hletter
    obtain rfl | rfl | rfl := hletter
    all_goals exact ⟨rfl, Nat.succ_lt_succ (Nat.succ_pos _)⟩
  · refine Or.inl ⟨read_lenient_eq fun hname => ?_, fun hnote => hlone ?_⟩
    · cases t with
      | nil => rfl
      | cons d u =>
        rw [noteTail, noteTail]
        by_cases hmark : d = sharpMark
        · have hsharp : hasSharp c = true := by
            rw [← Bool.not_eq_false]
            exact fun hsharp => hlone ⟨u, hmark ▸ rfl, mem_sharpless hname hsharp⟩
          rw [if_pos hmark, if_pos hmark, hsharp, Bool.or_true, Bool.or_true]
        · rw [if_neg hmark, if_neg hmark]
    · obtain ⟨hname, hpitch, hlen⟩ := of_read_note hnote
      have hzero : noteTail false c t = 0 := (Nat.succ.inj hlen).symm
      obtain ⟨u, ht, hsharp⟩ := (noteTail_eq_zero_iff hpitch).mp hzero
      exact ⟨u, ht, mem_sharpless hname hsharp⟩

end Lexeme

end ChipHighlight
