import ChipHighlight.Alphabet

/-!
# Escaped characters

A backslash escapes the character behind it unless it is escaped itself.  So a character
is escaped exactly when the backslashes that stand immediately before it are odd in number
(`escapesNext`), and that is a flag which every character sets anew (`escapesNext_concat`).
`unescaped q t` is the number of places of a text where `q` stands unescaped.
-/

namespace ChipHighlight.Text

/-- Whether a text ends in an odd number of backslashes, so that the character behind it is
escaped. -/
def escapesNext (t : Text) : Bool := runLength (· == escapeMark) t.reverse % 2 == 1

@[simp] theorem escapesNext_nil : escapesNext [] = false := rfl

/-- **One flag instead of a count.** -/
theorem escapesNext_concat (t : Text) (c : Char) :
    escapesNext (t ++ [c]) = (!escapesNext t && c == escapeMark) := by
  rw [escapesNext, List.reverse_append, List.reverse_singleton, List.singleton_append,
    runLength_cons, escapesNext]
  by_cases hc : c = escapeMark
  · rw [if_pos (beq_iff_eq.mpr hc), hc, beq_self_eq_true, Bool.and_true]
    rcases Nat.mod_two_eq_zero_or_one (runLength (· == escapeMark) t.reverse) with h | h
    · rw [Nat.add_mod, h]
      rfl
    · rw [Nat.add_mod, h]
      rfl
  · have hne : (c == escapeMark) = false := beq_eq_false_iff_ne.mpr hc
    rw [hne, if_neg Bool.false_ne_true, Bool.and_false]
    rfl

theorem escapesNext_concat_of_ne {c : Char} (hc : c ≠ escapeMark) (t : Text) :
    escapesNext (t ++ [c]) = false := by
  rw [escapesNext_concat, beq_eq_false_iff_ne.mpr hc, Bool.and_false]

/-- In how many places of a text a character stands unescaped. -/
def unescaped (q : Char) (t : Text) : Nat :=
  (List.range t.length).countP fun i => t[i]? == some q && !escapesNext (t.take i)

@[simp] theorem unescaped_nil (q : Char) : unescaped q [] = 0 := rfl

theorem unescaped_concat (q : Char) (t : Text) (c : Char) :
    unescaped q (t ++ [c]) =
      unescaped q t + if c = q ∧ escapesNext t = false then 1 else 0 := by
  have hfront : ∀ i ∈ List.range t.length,
      ((t ++ [c])[i]? == some q && !escapesNext ((t ++ [c]).take i)) =
        (t[i]? == some q && !escapesNext (t.take i)) := by
    intro i hi
    have hlt := List.mem_range.mp hi
    rw [List.getElem?_append_left hlt, List.take_append_of_le_length (Nat.le_of_lt hlt)]
  rw [unescaped, List.length_append, List.length_singleton, List.range_succ, List.countP_append,
    List.countP_congr fun i hi => by rw [hfront i hi], unescaped, List.countP_singleton,
    List.getElem?_concat_length, List.take_left]
  simp

/-- A text that goes on has no fewer. -/
theorem unescaped_le_append (q : Char) (t u : Text) : unescaped q t ≤ unescaped q (t ++ u) := by
  induction u generalizing t with
  | nil => exact Nat.le_of_eq (congrArg _ (List.append_nil t).symm)
  | cons c u ih =>
    have hfirst : unescaped q t ≤ unescaped q (t ++ [c]) := by
      rw [unescaped_concat]
      exact Nat.le_add_right _ _
    have hrest := ih (t ++ [c])
    rw [List.append_assoc, List.singleton_append] at hrest
    exact Nat.le_trans hfirst hrest

end ChipHighlight.Text
