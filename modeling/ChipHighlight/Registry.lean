import ChipHighlight.Text.Basic

/-!
# Named things

A registry holds things under names.  Putting something under a name that is in
use replaces what was there; `get?_put` says what is found afterwards.
-/

namespace ChipHighlight

structure Registry (α : Type) where
  entries : List (Text × α) := []

namespace Registry

variable {α : Type}

def get? (r : Registry α) (name : Text) : Option α := r.entries.lookup name

def put (name : Text) (a : α) (r : Registry α) : Registry α :=
  ⟨(name, a) :: r.entries.filter fun entry => entry.1 != name⟩

theorem lookup_filter_ne {name other : Text} (h : other ≠ name) (entries : List (Text × α)) :
    (entries.filter fun entry => entry.1 != name).lookup other = entries.lookup other := by
  induction entries with
  | nil => rfl
  | cons entry rest ih =>
    obtain ⟨key, a⟩ := entry
    rw [List.filter_cons, List.lookup_cons]
    by_cases hkey : key = name
    · subst hkey
      rw [if_neg (by simp), ih, beq_eq_false_iff_ne.mpr h]
    · rw [if_pos (by simpa using hkey), List.lookup_cons, ih]

theorem get?_put (name other : Text) (a : α) (r : Registry α) :
    (r.put name a).get? other = if other = name then some a else r.get? other := by
  unfold get? put
  rw [List.lookup_cons]
  split
  · rename_i h
    rw [if_pos (beq_iff_eq.mp h)]
  · rename_i h
    have hne : other ≠ name := beq_eq_false_iff_ne.mp h
    rw [if_neg hne, lookup_filter_ne hne]

end Registry

end ChipHighlight
