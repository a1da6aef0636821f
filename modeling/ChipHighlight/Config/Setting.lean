import ChipHighlight.Number.Written
import ChipHighlight.Text.Quoted

/-!
# Settings as they are handed in

A host hands its settings over as values of a data format: nothing, a truth
value, a number, a text, a list, or an object with named fields.  Three questions
are asked of such a value.  `isOn` is whether it counts as a yes: everything does
but nothing, false, the zeros, and an empty text, list or object.  `same` is whether
two values are equal: numbers by value, with the truth values among them as one
and zero, lists in order, objects field by field in any order.  `display` is how
a message shows it.

The first two agree, and that is what lets a host keep results for a setting that
is the same but not identical: `isOn_of_same` says that equal values are both on
or both off.
-/

namespace ChipHighlight

/-- A value handed in by a host. -/
inductive Setting
  | null
  | bool (value : Bool)
  | int (value : Int)
  | float (value : Binary64)
  | text (value : Text)
  | list (items : List Setting)
  | object (fields : List (Text × Setting))
deriving Inhabited

namespace Setting

/-- The number that a value stands for, where it stands for one. -/
def number? : Setting → Option Number
  | bool b => some (Number.ofInt (if b then 1 else 0))
  | int n => some (Number.ofInt n)
  | float b => some b.number
  | _ => none

/-- **Whether a value counts as a yes.** -/
def isOn : Setting → Bool
  | null => false
  | bool b => b
  | int n => n != 0
  | float b => !b.isZero
  | text t => !t.isEmpty
  | list items => !items.isEmpty
  | object fields => !fields.isEmpty

/-! ### Equality -/

mutual

def same : Setting → Setting → Bool
  | null, null => true
  | text a, text b => a == b
  | list as, list bs => sameItems as bs
  | object as, object bs => fieldsWithin as bs && bs.all fun b => hasField as b
  | a, b =>
    match a.number?, b.number? with
    | some m, some n => m == n
    | _, _ => false
termination_by structural a => a

def sameItems : List Setting → List Setting → Bool
  | [], [] => true
  | a :: as, b :: bs => a.same b && sameItems as bs
  | _, _ => false
termination_by structural as => as

def sameField : Text × Setting → Text × Setting → Bool
  | (m, a), (n, b) => m == n && a.same b
termination_by structural a => a

/-- Whether every field of the first object is one of the second. -/
def fieldsWithin : List (Text × Setting) → List (Text × Setting) → Bool
  | [], _ => true
  | a :: as, bs => bs.any (fun b => sameField a b) && fieldsWithin as bs
termination_by structural as => as

def hasField : List (Text × Setting) → Text × Setting → Bool
  | [], _ => false
  | a :: as, b => sameField a b || hasField as b
termination_by structural as => as

end

theorem fieldsWithin_iff (as bs : List (Text × Setting)) :
    fieldsWithin as bs = true ↔ ∀ a ∈ as, ∃ b ∈ bs, sameField a b = true := by
  induction as with
  | nil => simp [fieldsWithin]
  | cons a as ih => simp [fieldsWithin, ih]

theorem hasField_iff (as : List (Text × Setting)) (b : Text × Setting) :
    hasField as b = true ↔ ∃ a ∈ as, sameField a b = true := by
  induction as with
  | nil => simp [hasField]
  | cons a as ih => simp [hasField, ih]

theorem fieldsWithin_of_forall {as bs : List (Text × Setting)}
    (h : ∀ a ∈ as, sameField a a = true) (hsub : ∀ a ∈ as, a ∈ bs) :
    fieldsWithin as bs = true :=
  (fieldsWithin_iff as bs).mpr fun a ha => ⟨a, hsub a ha, h a ha⟩

mutual

theorem same_refl : ∀ s : Setting, s.same s = true
  | null => by rw [same]
  | bool b => by rw [same] <;> simp [number?]
  | int n => by rw [same] <;> simp [number?]
  | float b => by rw [same] <;> simp [number?]
  | text t => by simp [same]
  | list items => by rw [same]; exact sameItems_refl items
  | object fields => by
    have h := sameField_refl_of_mem fields
    rw [same, Bool.and_eq_true, List.all_eq_true]
    exact ⟨fieldsWithin_of_forall h fun _ ha => ha,
      fun b hb => (hasField_iff fields b).mpr ⟨b, hb, h b hb⟩⟩

theorem sameItems_refl : ∀ items : List Setting, sameItems items items = true
  | [] => by rw [sameItems]
  | s :: rest => by rw [sameItems, same_refl s, sameItems_refl rest, Bool.and_self]

theorem sameField_refl : ∀ f : Text × Setting, sameField f f = true
  | (name, s) => by rw [sameField, same_refl s, beq_self_eq_true, Bool.and_self]

theorem sameField_refl_of_mem :
    ∀ (fields : List (Text × Setting)) (f : Text × Setting), f ∈ fields → sameField f f = true
  | [], f, h => absurd h List.not_mem_nil
  | g :: rest, f, h => by
    rcases List.mem_cons.mp h with h | h
    · rw [h]; exact sameField_refl g
    · exact sameField_refl_of_mem rest f h

end

theorem isOn_of_number? {s : Setting} {n : Number} (h : s.number? = some n) :
    s.isOn = true ↔ n ≠ .zero := by
  cases s with
  | bool b => cases h; cases b <;> simp [isOn, Number.ofInt_eq_zero_iff]
  | int n => cases h; simp [isOn, Number.ofInt_eq_zero_iff]
  | float b => cases h; simp [isOn, Binary64.number_eq_zero_iff]
  | _ => cases h

theorem isOn_of_numbers {a b : Setting}
    (h : (match a.number?, b.number? with
      | some m, some n => m == n
      | _, _ => false) = true) : a.isOn = b.isOn := by
  split at h
  · rename_i m n hm hn
    rw [Bool.eq_iff_iff, isOn_of_number? hm, isOn_of_number? hn, beq_iff_eq.mp h]
  · cases h

/-- **Equal values are both on or both off.** -/
theorem isOn_of_same {a b : Setting} (h : a.same b = true) : a.isOn = b.isOn := by
  unfold same at h
  split at h
  · rfl
  · rw [beq_iff_eq.mp h]
  · rename_i as bs
    cases as <;> cases bs <;> simp_all [sameItems, isOn]
  · rename_i as bs
    cases as <;> cases bs <;> simp_all [fieldsWithin, hasField, isOn]
  · exact isOn_of_numbers h

/-! ### Display -/

def kindName : Setting → Text
  | null => "NoneType".toList
  | bool _ => "bool".toList
  | int _ => "int".toList
  | float _ => "float".toList
  | text _ => "str".toList
  | list _ => "list".toList
  | object _ => "dict".toList

mutual

def display : Setting → Text
  | null => "None".toList
  | bool b => if b then "True".toList else "False".toList
  | int n => Text.ofInt n
  | float b => b.text
  | text t => quoted t
  | list items => '[' :: Text.join ", ".toList (displayItems items) ++ [']']
  | object fields => '\x7b' :: Text.join ", ".toList (displayFields fields) ++ ['\x7d']
termination_by structural s => s

def displayItems : List Setting → List Text
  | [] => []
  | s :: rest => s.display :: displayItems rest
termination_by structural items => items

def displayField : Text × Setting → Text
  | (name, s) => quoted name ++ ':' :: ' ' :: s.display
termination_by structural f => f

def displayFields : List (Text × Setting) → List Text
  | [] => []
  | f :: rest => displayField f :: displayFields rest
termination_by structural fields => fields

end

end Setting

end ChipHighlight
