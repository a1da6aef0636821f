import Mathlib.Computability.Language
import Mathlib.Data.List.TakeWhile
import ChipHighlight.Text.Basic

/-!
# Longest matches

A set of texts matches at the beginning of a text if one of its members stands there.
`LongestIn words t taken` says that `taken` is the longest that does.  There is at most one
(`LongestIn.unique`), and it is put together from the longest matches of the parts of a
set: one character of a class (`single`), a character and what is behind it (`cons`), the
better one of two choices (`add_of_le`), what may be left out (`option`), and a run with words
behind it that cannot be taken for more of the run (`star_mul`).
-/

namespace ChipHighlight

open scoped Computability

/-! ### Texts by their characters -/

def oneOf (p : Char → Bool) : Language Char := {t | ∃ c, t = [c] ∧ p c = true}

def only (c : Char) : Language Char := oneOf (· == c)

def anyChar : Language Char := oneOf fun _ => true

theorem mem_oneOf_mul {p : Char → Bool} {words : Language Char} {t : Text} :
    t ∈ oneOf p * words ↔ ∃ c u, t = c :: u ∧ p c = true ∧ u ∈ words := by
  rw [Language.mem_mul]
  constructor
  · rintro ⟨_, ⟨c, rfl, hc⟩, u, hu, rfl⟩
    exact ⟨c, u, rfl, hc, hu⟩
  · rintro ⟨c, u, rfl, hc, hu⟩
    exact ⟨[c], ⟨c, rfl, hc⟩, u, hu, rfl⟩

theorem mem_star_oneOf {p : Char → Bool} {t : Text} :
    t ∈ (oneOf p)∗ ↔ ∀ c ∈ t, p c = true := by
  induction t with
  | nil => exact iff_of_true (Language.nil_mem_kstar _) (List.forall_mem_nil _)
  | cons c t ih =>
    rw [← Language.one_add_self_mul_kstar_eq_kstar, Language.mem_add, Language.mem_one,
      mem_oneOf_mul, List.forall_mem_cons, ← ih]
    constructor
    · rintro (hnil | ⟨d, u, hcons, hd, hu⟩)
      · cases hnil
      · obtain ⟨rfl, rfl⟩ := List.cons_eq_cons.mp hcons
        exact ⟨hd, hu⟩
    · rintro ⟨hc, ht⟩
      exact Or.inr ⟨c, t, rfl, hc, ht⟩

/-! ### Longest matches -/

/-- **The longest match of some words** at the beginning of a text. -/
structure LongestIn (words : Language Char) (t taken : Text) : Prop where
  mem : taken ∈ words
  initial : taken <+: t
  longest : ∀ other ∈ words, other <+: t → other.length ≤ taken.length

namespace LongestIn

variable {p : Char → Bool} {words more : Language Char} {c : Char} {t taken other : Text}

theorem unique (h : LongestIn words t taken) (k : LongestIn words t other) : other = taken :=
  (List.prefix_of_prefix_length_le k.initial h.initial
    (h.longest other k.mem k.initial)).eq_of_length_le (k.longest taken h.mem h.initial)

theorem of_mem (h : taken ∈ words) : LongestIn words taken taken :=
  ⟨h, List.prefix_refl _, fun _ _ hinitial => hinitial.length_le⟩

theorem nil_of_forall (h : [] ∈ words) (hnone : ∀ other ∈ words, other <+: t → other = []) :
    LongestIn words t [] :=
  ⟨h, List.nil_prefix, fun other hother hinitial => by rw [hnone other hother hinitial]⟩

theorem single (hc : p c = true) : LongestIn (oneOf p) (c :: t) [c] where
  mem := ⟨c, rfl, hc⟩
  initial := List.prefix_append [c] t
  longest := by
    rintro other ⟨d, rfl, -⟩ -
    exact Nat.le_refl 1

/-- A character of a class, and what is behind it. -/
theorem cons (hc : p c = true) (h : LongestIn words t taken) :
    LongestIn (oneOf p * words) (c :: t) (c :: taken) where
  mem := mem_oneOf_mul.mpr ⟨c, taken, rfl, hc, h.mem⟩
  initial := (List.prefix_cons_inj c).mpr h.initial
  longest := by
    intro other hother hinitial
    obtain ⟨d, u, rfl, -, hu⟩ := mem_oneOf_mul.mp hother
    exact Nat.succ_le_succ (h.longest u hu (List.cons_prefix_cons.mp hinitial).2)

theorem only_cons (h : LongestIn words t taken) :
    LongestIn (only c * words) (c :: t) (c :: taken) := .cons (beq_self_eq_true c) h

/-- Two choices, of which the other has no longer match. -/
theorem add_of_le (h : LongestIn words t taken)
    (hmore : ∀ other ∈ more, other <+: t → other.length ≤ taken.length) :
    LongestIn (words + more) t taken where
  mem := (Language.mem_add ..).mpr (Or.inl h.mem)
  initial := h.initial
  longest := by
    intro other hother
    rcases (Language.mem_add ..).mp hother with hother | hother
    · exact h.longest other hother
    · exact hmore other hother

theorem option (h : LongestIn words t taken) : LongestIn (1 + words) t taken := by
  rw [add_comm]
  refine h.add_of_le fun other hother _ => ?_
  rw [(Language.mem_one other).mp hother]
  exact Nat.zero_le _

theorem option_of_none (hnone : ∀ other ∈ words, ¬ other <+: t) : LongestIn (1 + words) t [] := by
  refine .nil_of_forall (Or.inl rfl) fun other hother hinitial => ?_
  rcases (Language.mem_add ..).mp hother with hother | hother
  · exact (Language.mem_one other).mp hother
  · exact absurd hinitial (hnone other hother)

/-- A run, and words behind it that do not begin as the run goes on. -/
theorem star_mul (hwords : ∀ word ∈ words, ∀ d ∈ word.head?, p d = false)
    (h : LongestIn words (t.dropWhile p) taken) :
    LongestIn ((oneOf p)∗ * words) t (t.takeWhile p ++ taken) where
  mem := Language.mem_mul.mpr ⟨_, mem_star_oneOf.mpr fun _ hd => List.mem_takeWhile_imp hd, taken,
    h.mem, rfl⟩
  initial := by
    have hwhole := (List.prefix_append_right_inj (t.takeWhile p)).mpr h.initial
    rwa [List.takeWhile_append_dropWhile] at hwhole
  longest := by
    rintro other hother ⟨rest, rfl⟩
    obtain ⟨run, hrun, word, hword, rfl⟩ := Language.mem_mul.mp hother
    rw [mem_star_oneOf] at hrun
    rw [List.append_assoc, List.dropWhile_append_of_pos hrun] at h
    rw [List.append_assoc, List.takeWhile_append_of_pos hrun, List.append_assoc, List.length_append,
      List.length_append]
    refine Nat.add_le_add_left ?_ _
    cases word with
    | nil => exact Nat.zero_le _
    | cons d word =>
      -- the run has to end in front of the word
      have hd : ¬ p d = true := Bool.not_eq_true _ ▸ hwords _ hword d rfl
      rw [List.cons_append, List.dropWhile_cons_of_neg hd] at h
      rw [List.cons_append, List.takeWhile_cons_of_neg hd]
      exact h.longest (d :: word) hword (List.prefix_append ..)

theorem star (p : Char → Bool) (t : Text) : LongestIn (oneOf p)∗ t (t.takeWhile p) := by
  have h : LongestIn ((oneOf p)∗ * 1) t (t.takeWhile p ++ []) :=
    .star_mul (fun word hword => by rw [(Language.mem_one word).mp hword]; nofun)
      (.nil_of_forall rfl fun other hother _ => (Language.mem_one other).mp hother)
  rwa [mul_one, List.append_nil] at h

end LongestIn

end ChipHighlight
