import ChipHighlight.Config.Basic

/-!
# Equality of configurations is an equivalence

A highlighter compares the active configuration with the one that it keeps, and that
one need not be the configuration of the last update: it is the first of a row of
equal ones.  So what is known about two updates reaches a third only because
equality of configurations is symmetric and transitive (`Config.same_symm`,
`Config.same_trans`).

Both rest on the same facts about settings.  `Setting.same_cases` lists the five ways
in which two settings can be equal; apart from numbers, which compare across kinds,
both sides have one shape.  Lists and objects are then compared item by item, and the
two proofs follow the first setting.
-/

namespace ChipHighlight

namespace Setting

/-! ### The ways to be equal -/

theorem same_of_number? {a b : Setting} {n : Number} (ha : a.number? = some n)
    (hb : b.number? = some n) : a.same b = true := by
  cases a <;> cases b <;> simp_all [same, number?]

theorem exists_number? {a b : Setting}
    (h : (match a.number?, b.number? with
      | some m, some n => m == n
      | _, _ => false) = true) : ∃ n, a.number? = some n ∧ b.number? = some n := by
  split at h
  · rename_i m n hm hn
    exact ⟨n, by rw [hm, beq_iff_eq.mp h], hn⟩
  · cases h

def SameFields (as bs : List (Text × Setting)) : Prop :=
  (∀ a ∈ as, ∃ b ∈ bs, sameField a b = true) ∧ ∀ b ∈ bs, ∃ a ∈ as, sameField a b = true

theorem same_object_iff {as bs : List (Text × Setting)} :
    (object as).same (object bs) = true ↔ SameFields as bs := by
  rw [same, Bool.and_eq_true, fieldsWithin_iff, List.all_eq_true]
  simp only [hasField_iff]
  rfl

/-- **The five ways in which two settings are equal.** -/
theorem same_cases {a b : Setting} (h : a.same b = true) :
    (a = null ∧ b = null) ∨ (∃ t, a = text t ∧ b = text t) ∨
      (∃ as bs, a = list as ∧ b = list bs ∧ sameItems as bs = true) ∨
      (∃ as bs, a = object as ∧ b = object bs ∧ SameFields as bs) ∨
      ∃ n, a.number? = some n ∧ b.number? = some n := by
  have hall := h
  unfold same at h
  split at h
  · exact Or.inl ⟨rfl, rfl⟩
  · rw [beq_iff_eq.mp h]
    exact Or.inr (Or.inl ⟨_, rfl, rfl⟩)
  · exact Or.inr (Or.inr (Or.inl ⟨_, _, rfl, rfl, h⟩))
  · exact Or.inr (Or.inr (Or.inr (Or.inl ⟨_, _, rfl, rfl, same_object_iff.mp hall⟩)))
  · exact Or.inr (Or.inr (Or.inr (Or.inr (exists_number? h))))

theorem eq_list_of_same {as : List Setting} {b : Setting} (h : (list as).same b = true) :
    ∃ bs, b = list bs ∧ sameItems as bs = true := by
  rcases same_cases h with ⟨h, -⟩ | ⟨t, h, -⟩ | ⟨xs, bs, h, hb, hs⟩ | ⟨xs, bs, h, -⟩ | ⟨n, h, -⟩
  · cases h
  · cases h
  · cases h
    exact ⟨bs, hb, hs⟩
  · cases h
  · cases h

theorem eq_object_of_same {as : List (Text × Setting)} {b : Setting}
    (h : (object as).same b = true) : ∃ bs, b = object bs ∧ SameFields as bs := by
  rcases same_cases h with ⟨h, -⟩ | ⟨t, h, -⟩ | ⟨xs, bs, h, -⟩ | ⟨xs, bs, h, hb, hs⟩ | ⟨n, h, -⟩
  · cases h
  · cases h
  · cases h
  · cases h
    exact ⟨bs, hb, hs⟩
  · cases h

theorem number?_of_same {a b : Setting} {n : Number} (h : a.same b = true)
    (ha : a.number? = some n) : b.number? = some n := by
  rcases same_cases h with ⟨rfl, -⟩ | ⟨t, rfl, -⟩ | ⟨as, bs, rfl, -⟩ | ⟨as, bs, rfl, -⟩ | ⟨m, hm, hb⟩
  · cases ha
  · cases ha
  · cases ha
  · cases ha
  · rw [hb, ← hm, ha]

/-- A setting without parts equals only what it is, or the same number. -/
theorem flat_cases {a b : Setting} (hl : ∀ as, a ≠ list as) (ho : ∀ as, a ≠ object as)
    (h : a.same b = true) : a = b ∨ ∃ n, a.number? = some n ∧ b.number? = some n := by
  rcases same_cases h with ⟨ha, hb⟩ | ⟨t, ha, hb⟩ | ⟨as, bs, ha, -⟩ | ⟨as, bs, ha, -⟩ | hn
  · exact Or.inl (ha.trans hb.symm)
  · exact Or.inl (ha.trans hb.symm)
  · exact absurd ha (hl as)
  · exact absurd ha (ho as)
  · exact Or.inr hn

theorem same_symm_of_flat {a b : Setting} (hl : ∀ as, a ≠ list as) (ho : ∀ as, a ≠ object as)
    (h : a.same b = true) : b.same a = true := by
  rcases flat_cases hl ho h with rfl | ⟨n, ha, hb⟩
  · exact h
  · exact same_of_number? hb ha

theorem same_trans_of_flat {a b c : Setting} (hl : ∀ as, a ≠ list as) (ho : ∀ as, a ≠ object as)
    (hab : a.same b = true) (hbc : b.same c = true) : a.same c = true := by
  rcases flat_cases hl ho hab with rfl | ⟨n, ha, hb⟩
  · exact hbc
  · exact same_of_number? ha (number?_of_same hbc hb)

/-! ### Symmetry -/

theorem sameField_iff {m n : Text} {a b : Setting} :
    sameField (m, a) (n, b) = true ↔ m = n ∧ a.same b = true := by
  rw [sameField, Bool.and_eq_true, beq_iff_eq]

mutual

theorem same_symm : ∀ (a : Setting) {b : Setting}, a.same b = true → b.same a = true
  | null, _, h => same_symm_of_flat (fun _ => nofun) (fun _ => nofun) h
  | bool _, _, h => same_symm_of_flat (fun _ => nofun) (fun _ => nofun) h
  | int _, _, h => same_symm_of_flat (fun _ => nofun) (fun _ => nofun) h
  | float _, _, h => same_symm_of_flat (fun _ => nofun) (fun _ => nofun) h
  | text _, _, h => same_symm_of_flat (fun _ => nofun) (fun _ => nofun) h
  | list as, _, h => by
    obtain ⟨bs, rfl, hs⟩ := eq_list_of_same h
    rw [same]
    exact sameItems_symm as hs
  | object as, _, h => by
    obtain ⟨bs, rfl, hab, hba⟩ := eq_object_of_same h
    refine same_object_iff.mpr ⟨fun b hb => ?_, fun a ha => ?_⟩
    · obtain ⟨a, ha, hs⟩ := hba b hb
      exact ⟨a, ha, sameField_symm_of_mem as a ha hs⟩
    · obtain ⟨b, hb, hs⟩ := hab a ha
      exact ⟨b, hb, sameField_symm_of_mem as a ha hs⟩

theorem sameItems_symm :
    ∀ (as : List Setting) {bs : List Setting}, sameItems as bs = true → sameItems bs as = true
  | [], [], h => h
  | [], _ :: _, h => by rw [sameItems] at h <;> simp_all
  | _ :: _, [], h => by rw [sameItems] at h <;> simp_all
  | a :: as, b :: bs, h => by
    rw [sameItems, Bool.and_eq_true] at h ⊢
    exact ⟨same_symm a h.1, sameItems_symm as h.2⟩

theorem sameField_symm :
    ∀ (f : Text × Setting) {g : Text × Setting}, sameField f g = true → sameField g f = true
  | (_, a), (_, _), h => by
    rw [sameField_iff] at h ⊢
    exact ⟨h.1.symm, same_symm a h.2⟩

theorem sameField_symm_of_mem :
    ∀ (fields : List (Text × Setting)) (f : Text × Setting), f ∈ fields →
      ∀ {g : Text × Setting}, sameField f g = true → sameField g f = true
  | [], _, hf, _, _ => absurd hf List.not_mem_nil
  | e :: rest, f, hf, _, h => by
    rcases List.mem_cons.mp hf with hf | hf
    · rw [hf] at h ⊢
      exact sameField_symm e h
    · exact sameField_symm_of_mem rest f hf h

end

/-! ### Transitivity -/

mutual

theorem same_trans : ∀ (a : Setting) {b c : Setting}, a.same b = true → b.same c = true →
    a.same c = true
  | null, _, _, h, g => same_trans_of_flat (fun _ => nofun) (fun _ => nofun) h g
  | bool _, _, _, h, g => same_trans_of_flat (fun _ => nofun) (fun _ => nofun) h g
  | int _, _, _, h, g => same_trans_of_flat (fun _ => nofun) (fun _ => nofun) h g
  | float _, _, _, h, g => same_trans_of_flat (fun _ => nofun) (fun _ => nofun) h g
  | text _, _, _, h, g => same_trans_of_flat (fun _ => nofun) (fun _ => nofun) h g
  | list as, _, _, h, g => by
    obtain ⟨bs, rfl, hs⟩ := eq_list_of_same h
    obtain ⟨cs, rfl, gs⟩ := eq_list_of_same g
    rw [same]
    exact sameItems_trans as hs gs
  | object as, _, _, h, g => by
    obtain ⟨bs, rfl, hab, hba⟩ := eq_object_of_same h
    obtain ⟨cs, rfl, hbc, hcb⟩ := eq_object_of_same g
    refine same_object_iff.mpr ⟨fun a ha => ?_, fun c hc => ?_⟩
    · obtain ⟨b, hb, h⟩ := hab a ha
      obtain ⟨c, hc, g⟩ := hbc b hb
      exact ⟨c, hc, sameField_trans_of_mem as a ha h g⟩
    · obtain ⟨b, hb, g⟩ := hcb c hc
      obtain ⟨a, ha, h⟩ := hba b hb
      exact ⟨a, ha, sameField_trans_of_mem as a ha h g⟩

theorem sameItems_trans : ∀ (as : List Setting) {bs cs : List Setting},
    sameItems as bs = true → sameItems bs cs = true → sameItems as cs = true
  | [], [], _, _, g => g
  | [], _ :: _, _, h, _ => by rw [sameItems] at h <;> simp_all
  | _ :: _, [], _, h, _ => by rw [sameItems] at h <;> simp_all
  | _ :: _, _ :: _, [], _, g => by rw [sameItems] at g <;> simp_all
  | a :: as, b :: bs, c :: cs, h, g => by
    rw [sameItems, Bool.and_eq_true] at h g ⊢
    exact ⟨same_trans a h.1 g.1, sameItems_trans as h.2 g.2⟩

theorem sameField_trans : ∀ (f : Text × Setting) {g k : Text × Setting},
    sameField f g = true → sameField g k = true → sameField f k = true
  | (_, a), (_, _), (_, _), h, g => by
    rw [sameField_iff] at h g ⊢
    exact ⟨h.1.trans g.1, same_trans a h.2 g.2⟩

theorem sameField_trans_of_mem :
    ∀ (fields : List (Text × Setting)) (f : Text × Setting), f ∈ fields →
      ∀ {g k : Text × Setting}, sameField f g = true → sameField g k = true → sameField f k = true
  | [], _, hf, _, _, _, _ => absurd hf List.not_mem_nil
  | e :: rest, f, hf, _, _, h, g => by
    rcases List.mem_cons.mp hf with hf | hf
    · rw [hf] at h ⊢
      exact sameField_trans e h g
    · exact sameField_trans_of_mem rest f hf h g

end

end Setting

/-! ### Configurations -/

namespace Config

theorem same_iff {a b : Config} :
    a.same b = true ↔ a.lenientSharps.same b.lenientSharps = true ∧
      a.extraKeywords = b.extraKeywords ∧ a.stringStyle = b.stringStyle := by
  simp only [same, Bool.and_eq_true, beq_iff_eq, and_assoc]

theorem same_symm {a b : Config} (h : a.same b = true) : b.same a = true := by
  rw [same_iff] at h ⊢
  exact ⟨Setting.same_symm _ h.1, h.2.1.symm, h.2.2.symm⟩

theorem same_trans {a b c : Config} (h : a.same b = true) (g : b.same c = true) :
    a.same c = true := by
  rw [same_iff] at h g ⊢
  exact ⟨Setting.same_trans _ h.1 g.1, h.2.1.trans g.2.1, h.2.2.trans g.2.2⟩

theorem same_congr_right {a b : Config} (h : a.same b = true) (c : Config) :
    c.same a = c.same b :=
  Bool.eq_iff_iff.mpr ⟨fun g => same_trans g h, fun g => same_trans g (same_symm h)⟩

theorem same_congr_left {a b : Config} (h : a.same b = true) (c : Config) :
    a.same c = b.same c :=
  Bool.eq_iff_iff.mpr ⟨fun g => same_trans (same_symm h) g, fun g => same_trans h g⟩

end Config

end ChipHighlight
