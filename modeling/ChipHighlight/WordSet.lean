import ChipHighlight.Text.Basic

/-!
# Sets of words

A set of words is kept as its members in ascending order of code points, each
once.  So a set has one form only: `ext` says that two sets with the same members
are equal, and equality of sets is plain equality of lists.
-/

namespace ChipHighlight

structure WordSet where
  toList : List Text
  ascending : toList.Pairwise (· < ·) := by exact List.Pairwise.nil
deriving DecidableEq

namespace WordSet

/-! ### Insertion -/

/-- Puts a word in its place, unless it is there already. -/
def insertWord (w : Text) : List Text → List Text
  | [] => [w]
  | v :: rest =>
    if w = v then v :: rest
    else if w < v then w :: v :: rest
    else v :: insertWord w rest

theorem mem_insertWord (w x : Text) (l : List Text) : x ∈ insertWord w l ↔ x = w ∨ x ∈ l := by
  induction l with
  | nil => simp [insertWord]
  | cons v rest ih =>
    rw [insertWord]
    split
    · rename_i h
      rw [h, List.mem_cons]
      constructor
      · exact Or.inr
      · rintro (h | h)
        · exact Or.inl h
        · exact h
    · split
      · rw [List.mem_cons]
      · rw [List.mem_cons, ih, List.mem_cons]
        constructor
        · rintro (h | h | h)
          · exact Or.inr (Or.inl h)
          · exact Or.inl h
          · exact Or.inr (Or.inr h)
        · rintro (h | h | h)
          · exact Or.inr (Or.inl h)
          · exact Or.inl h
          · exact Or.inr (Or.inr h)

theorem lt_of_not_lt_of_ne {v w : Text} (h : ¬ w < v) (hne : w ≠ v) : v < w :=
  Decidable.byContradiction fun hlt => hne (List.le_antisymm (List.not_lt.mp hlt) (List.not_lt.mp h))

theorem ascending_insertWord (w : Text) {l : List Text} (h : l.Pairwise (· < ·)) :
    (insertWord w l).Pairwise (· < ·) := by
  induction l with
  | nil => exact List.pairwise_singleton _ w
  | cons v rest ih =>
    obtain ⟨hv, hrest⟩ := List.pairwise_cons.mp h
    rw [insertWord]
    split
    · exact h
    · rename_i hne
      split
      · rename_i hlt
        refine List.pairwise_cons.mpr ⟨?_, h⟩
        intro x hx
        rcases List.mem_cons.mp hx with hx | hx
        · exact hx ▸ hlt
        · exact List.lt_trans hlt (hv x hx)
      · rename_i hlt
        refine List.pairwise_cons.mpr ⟨?_, ih hrest⟩
        intro x hx
        rcases (mem_insertWord w x rest).mp hx with hx | hx
        · exact hx ▸ lt_of_not_lt_of_ne hlt hne
        · exact hv x hx

/-! ### Sets -/

def empty : WordSet := { toList := [] }

def insert (w : Text) (s : WordSet) : WordSet :=
  ⟨insertWord w s.toList, ascending_insertWord w s.ascending⟩

def ofList : List Text → WordSet
  | [] => empty
  | w :: rest => (ofList rest).insert w

def contains (s : WordSet) (w : Text) : Bool := s.toList.contains w

theorem contains_iff {s : WordSet} {w : Text} : s.contains w = true ↔ w ∈ s.toList := by
  simp [contains]

@[simp] theorem mem_toList_insert {s : WordSet} {w x : Text} :
    x ∈ (s.insert w).toList ↔ x = w ∨ x ∈ s.toList := mem_insertWord w x s.toList

@[simp] theorem mem_toList_ofList {l : List Text} {x : Text} : x ∈ (ofList l).toList ↔ x ∈ l := by
  induction l with
  | nil => simp [ofList, empty]
  | cons w rest ih => simp [ofList, ih]

theorem eq_of_mem_iff {l m : List Text} (hl : l.Pairwise (· < ·)) (hm : m.Pairwise (· < ·))
    (h : ∀ x, x ∈ l ↔ x ∈ m) : l = m := by
  induction l generalizing m with
  | nil =>
    cases m with
    | nil => rfl
    | cons b m => exact absurd ((h b).mpr List.mem_cons_self) List.not_mem_nil
  | cons a l ih =>
    cases m with
    | nil => exact absurd ((h a).mp List.mem_cons_self) List.not_mem_nil
    | cons b m =>
      obtain ⟨ha, hlt⟩ := List.pairwise_cons.mp hl
      obtain ⟨hb, hmt⟩ := List.pairwise_cons.mp hm
      have hab : a = b := by
        rcases List.mem_cons.mp ((h a).mp List.mem_cons_self) with e | ham
        · exact e
        · rcases List.mem_cons.mp ((h b).mpr List.mem_cons_self) with e | hbl
          · exact e.symm
          · exact absurd (List.lt_trans (hb a ham) (ha b hbl)) (List.lt_irrefl b)
      subst hab
      congr 1
      refine ih hlt hmt fun x => ⟨fun hx => ?_, fun hx => ?_⟩
      · rcases List.mem_cons.mp ((h x).mp (List.mem_cons_of_mem a hx)) with e | hx'
        · exact absurd (e ▸ ha x hx) (List.lt_irrefl a)
        · exact hx'
      · rcases List.mem_cons.mp ((h x).mpr (List.mem_cons_of_mem a hx)) with e | hx'
        · exact absurd (e ▸ hb x hx) (List.lt_irrefl a)
        · exact hx'

/-- **One form for each set.** -/
theorem ext {s t : WordSet} (h : ∀ x, x ∈ s.toList ↔ x ∈ t.toList) : s = t := by
  cases s with
  | mk l hl =>
    cases t with
    | mk m hm =>
      have : l = m := eq_of_mem_iff hl hm h
      subst this
      rfl

end WordSet

end ChipHighlight
