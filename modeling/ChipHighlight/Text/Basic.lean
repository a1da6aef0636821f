/-!
# Text

A text is a list of code points, so that a length counts code points, a cut falls
between them, and a proof can follow the list.  `runLength p t` is the length of
the longest beginning of `t` on which `p` holds; every rule of the notation that
reads "as many as there are" is one such run, and the three lemmas below say that
it never leaves the text, that `p` holds on all of it, and that it cannot be longer.
-/

namespace ChipHighlight

abbrev Text := List Char

namespace Text

/-! ### Runs -/

/-- The length of the longest beginning on which `p` holds. -/
def runLength (p : Char → Bool) (t : Text) : Nat := (t.takeWhile p).length

@[simp] theorem runLength_nil (p : Char → Bool) : runLength p [] = 0 := rfl

theorem runLength_cons (p : Char → Bool) (c : Char) (t : Text) :
    runLength p (c :: t) = if p c then runLength p t + 1 else 0 := by
  unfold runLength
  rw [List.takeWhile_cons]
  split <;> rfl

theorem runLength_le (p : Char → Bool) (t : Text) : runLength p t ≤ t.length :=
  (List.takeWhile_sublist p).length_le

theorem take_runLength (p : Char → Bool) (t : Text) :
    t.take (runLength p t) = t.takeWhile p := by
  induction t with
  | nil => rfl
  | cons c t ih =>
    rw [runLength_cons, List.takeWhile_cons]
    split
    · rw [List.take_succ_cons, ih]
    · rfl

theorem of_mem_take_runLength {p : Char → Bool} {c : Char} {t : Text}
    (h : c ∈ t.take (runLength p t)) : p c = true := by
  rw [take_runLength] at h
  exact List.all_eq_true.mp List.all_takeWhile c h

theorem drop_runLength (p : Char → Bool) (t : Text) :
    t.drop (runLength p t) = t.dropWhile p := by
  induction t with
  | nil => rfl
  | cons c t ih =>
    rw [runLength_cons, List.dropWhile_cons]
    split
    · rw [List.drop_succ_cons, ih]
    · rfl

/-! ### Numbers -/

def ofNat (n : Nat) : Text := Nat.toDigits 10 n

def ofInt (n : Int) : Text :=
  if n < 0 then '-' :: ofNat n.natAbs else ofNat n.natAbs

/-! ### Joining -/

/-- The pieces in order, with `separator` between neighbours. -/
def join (separator : Text) : List Text → Text
  | [] => []
  | [t] => t
  | t :: rest => t ++ separator ++ join separator rest

end Text

end ChipHighlight
