import ChipHighlight.Config.Reader

/-!
# What reading a configuration comes to

A document describes a configuration by two values that are checked, each absent or
present: the style of literals and the further keywords.  `ReadsStyle` and `ReadsWords` say
what reading each of them comes to, case by case and without the order in which a collection
is searched, and the reader keeps to both (`readsStyle_styleOf`, `readsWords_readWords`).
The style goes first: only when it is read do the words matter (`ofFields_eq`).

A fault in the style is reported under its field, but not every fault in the words is.  A set
is made of them before they are checked one by one, and for a value that is no collection,
or one that lists a collection, there is no set (`NoSet`): this fault names no field
(`fault_fields`).
-/

namespace ChipHighlight.Config

/-! ### Styles -/

/-- **What reading a style comes to**: it goes by its name. -/
inductive ReadsStyle : Option Setting → Except Fault Style → Prop
  | absent : ReadsStyle none (.ok .string)
  | named (style : Style) : ReadsStyle (some (.text style.name)) (.ok style)
  | unknown {name : Text} (h : ∀ style : Style, style.name ≠ name) :
      ReadsStyle (some (.text name)) (.error (.unknownStyle name))
  | notAStyle {given : Setting} (h : ∀ name, given ≠ .text name) :
      ReadsStyle (some given) (.error (.notAStyle given))

def styleOf (given : Option Setting) : Except Fault Style := do
  let style ← given.mapM Draft.namedStyle
  Draft.readStyle style

theorem readsStyle_text (name : Text) :
    ReadsStyle (some (.text name)) (styleOf (some (.text name))) := by
  cases h : Style.ofName? name with
  | some style =>
    have hread : styleOf (some (.text name)) = .ok style := by
      simp only [styleOf, Option.mapM_some, Draft.namedStyle, h]
      rfl
    rw [hread, ← Style.name_of_ofName? h]
    exact .named style
  | none =>
    have hread : styleOf (some (.text name)) = .error (.unknownStyle name) := by
      simp only [styleOf, Option.mapM_some, Draft.namedStyle, h]
      rfl
    rw [hread]
    refine .unknown fun style hname => ?_
    rw [← hname, Style.ofName?_name] at h
    cases h

theorem readsStyle_styleOf (given : Option Setting) : ReadsStyle given (styleOf given) := by
  cases given with
  | none => exact .absent
  | some given =>
    cases given with
    | text name => exact readsStyle_text name
    | null | bool _ | int _ | float _ | list _ | object _ => exact .notAStyle fun _ => nofun

/-- The style of literals is absent, or one of the six names. -/
def StyleFine (fields : List (Text × Setting)) : Prop :=
  ∀ given ∈ Draft.field? stringStyleField fields, ∃ style : Style, given = .text style.name

theorem styleFine_iff {fields : List (Text × Setting)} :
    StyleFine fields ↔
      ∃ style, styleOf (Draft.field? stringStyleField fields) = .ok style := by
  have hread := readsStyle_styleOf (Draft.field? stringStyleField fields)
  unfold StyleFine
  generalize Draft.field? stringStyleField fields = given at hread ⊢
  generalize styleOf given = result at hread ⊢
  cases hread with
  | absent => exact ⟨fun _ => ⟨_, rfl⟩, fun _ => nofun⟩
  | named style =>
    refine ⟨fun _ => ⟨_, rfl⟩, fun _ => ?_⟩
    rintro given ⟨⟩
    exact ⟨style, rfl⟩
  | unknown h =>
    refine ⟨fun hfine => ?_, nofun⟩
    obtain ⟨style, hname⟩ := hfine _ rfl
    cases hname
    exact absurd rfl (h style)
  | notAStyle h =>
    refine ⟨fun hfine => ?_, nofun⟩
    obtain ⟨style, hname⟩ := hfine _ rfl
    exact absurd hname (h _)

/-- A fault in the style is reported under its field. -/
theorem field?_of_styleOf {given : Option Setting} {fault : Fault}
    (h : styleOf given = .error fault) : fault.field? = some stringStyleField := by
  have hread := readsStyle_styleOf given
  rw [h] at hread
  cases hread with
  | unknown _ => rfl
  | notAStyle _ => rfl

/-! ### Words -/

def isWord : Setting → Bool
  | .text (_ :: _) => true
  | _ => false

/-- What a collection lists; an object lists the names of its fields. -/
def members : Setting → List Setting
  | .list items => items
  | .object fields => fields.map fun f => .text f.1
  | _ => []

theorem members_eq_nil {given : Setting} (h : isNested given = false) : members given = [] := by
  cases given with
  | list _ | object _ => cases h
  | _ => rfl

theorem ne_text_of_mem_members {given item : Setting} (h : item ∈ members given) (t : Text) :
    given ≠ .text t := by
  rintro rfl
  exact absurd h List.not_mem_nil

theorem isWord_text {w : Text} (h : w ≠ []) : isWord (.text w) = true := by
  cases w with
  | nil => exact absurd rfl h
  | cons c t => rfl

/-- **What reading further keywords comes to.** -/
inductive ReadsWords (given : Setting) : Except Fault WordSet → Prop
  | bareText {t : Text} (h : given = .text t) : ReadsWords given (.error .bareText)
  | notACollection (htext : ∀ t, given ≠ .text t) (h : isNested given = false) :
      ReadsWords given (.error (.notACollection given))
  | nested {item : Setting} (hmem : item ∈ members given) (h : isNested item = true) :
      ReadsWords given (.error (.nestedWord item))
  | invalid {item : Setting} (hplain : ∀ other ∈ members given, isNested other = false)
      (hmem : item ∈ members given) (h : isWord item = false) :
      ReadsWords given (.error (.invalidWord item))
  | words {words : List Text} (hcollection : isNested given = true)
      (hmembers : members given = words.map .text) (hne : ∀ w ∈ words, w ≠ []) :
      ReadsWords given (.ok (.ofList words))

theorem wordsOf_cases (items : List Setting) :
    (∃ item ∈ items, isWord item = false ∧ wordsOf items = .error (.invalidWord item)) ∨
      ∃ words : List Text,
        items = words.map .text ∧ (∀ w ∈ words, w ≠ []) ∧ wordsOf items = .ok words := by
  fun_induction wordsOf items with
  | case1 => exact Or.inr ⟨[], rfl, nofun, rfl⟩
  | case2 c t rest ih =>
    rcases ih with ⟨item, hmem, hword, hrest⟩ | ⟨words, hrest, hne, hwords⟩
    · exact Or.inl ⟨item, List.mem_cons_of_mem _ hmem, hword, by rw [hrest]; rfl⟩
    · refine Or.inr ⟨(c :: t) :: words, by rw [hrest, List.map_cons], ?_, by rw [hwords]; rfl⟩
      intro w hw
      rcases List.mem_cons.mp hw with rfl | hw
      · exact List.cons_ne_nil c t
      · exact hne w hw
  | case3 given rest hother =>
    refine Or.inl ⟨given, List.mem_cons_self, ?_, rfl⟩
    unfold isWord
    split
    · exact absurd rfl (hother _ _)
    · rfl

theorem readsWords_of_items {given : Setting} (hcollection : isNested given = true)
    (hitems : items? given = .ok (members given)) : ReadsWords given (readWords given) := by
  cases hfind : (members given).find? isNested with
  | some item =>
    have hread : readWords given = .error (.nestedWord item) := by
      simp only [readWords, hitems, bind, Except.bind, hfind]
    rw [hread]
    exact .nested (List.mem_of_find?_eq_some hfind) (List.find?_some hfind)
  | none =>
    have hplain : ∀ item ∈ members given, isNested item = false := by
      intro item hmem
      exact Bool.eq_false_iff.mpr (List.find?_eq_none.mp hfind item hmem)
    have hread : readWords given = (wordsOf (members given)).map .ofList := by
      simp only [readWords, hitems, bind, Except.bind, hfind]
      rfl
    rw [hread]
    rcases wordsOf_cases (members given) with
      ⟨item, hmem, hword, hwords⟩ | ⟨words, hmembers, hne, hwords⟩
    · rw [hwords]
      exact .invalid hplain hmem hword
    · rw [hwords]
      exact .words hcollection hmembers hne

theorem readsWords_readWords (given : Setting) : ReadsWords given (readWords given) := by
  cases given with
  | text t => exact .bareText rfl
  | list items => exact readsWords_of_items rfl rfl
  | object fields => exact readsWords_of_items rfl rfl
  | null | bool _ | int _ | float _ => exact .notACollection (fun _ => nofun) rfl

/-- **There is no set of the words**: they are neither a text nor a collection, or one of
them is a collection itself. -/
def NoSet (given : Setting) : Prop :=
  (∀ t, given ≠ .text t) ∧
    (isNested given = false ∨ ∃ item ∈ members given, isNested item = true)

/-- **The words are not what they should be**: they are one text, or there is a set of them
but one is empty or not a text. -/
def BadWords (given : Setting) : Prop :=
  (∃ t, given = .text t) ∨
    (∀ item ∈ members given, isNested item = false) ∧ ∃ item ∈ members given, isWord item = false

theorem noSet_iff {given : Setting} :
    NoSet given ↔ ∃ fault, readWords given = .error fault ∧ fault.field? = none := by
  have hread := readsWords_readWords given
  generalize readWords given = result at hread ⊢
  constructor
  · rintro ⟨htext, hset⟩
    cases hread with
    | bareText h => exact absurd h (htext _)
    | notACollection _ _ => exact ⟨_, rfl, rfl⟩
    | nested _ _ => exact ⟨_, rfl, rfl⟩
    | invalid hplain hmem _ =>
      rcases hset with h | ⟨other, hother, h⟩
      · rw [members_eq_nil h] at hmem
        exact absurd hmem List.not_mem_nil
      · rw [hplain other hother] at h
        cases h
    | words hcollection hmembers _ =>
      rcases hset with h | ⟨other, hother, h⟩
      · rw [hcollection] at h
        cases h
      · rw [hmembers] at hother
        obtain ⟨w, -, rfl⟩ := List.mem_map.mp hother
        cases h
  · rintro ⟨fault, hfault, hfield⟩
    cases hread with
    | bareText _ | invalid _ _ _ => cases hfault; cases hfield
    | notACollection htext h => exact ⟨htext, Or.inl h⟩
    | nested hmem h => exact ⟨ne_text_of_mem_members hmem, Or.inr ⟨_, hmem, h⟩⟩
    | words _ _ _ => cases hfault

theorem badWords_iff {given : Setting} :
    BadWords given ↔
      ∃ fault, readWords given = .error fault ∧ fault.field? = some extraKeywordsField := by
  have hread := readsWords_readWords given
  generalize readWords given = result at hread ⊢
  constructor
  · intro hbad
    cases hread with
    | bareText _ => exact ⟨_, rfl, rfl⟩
    | invalid _ _ _ => exact ⟨_, rfl, rfl⟩
    | notACollection htext h =>
      rcases hbad with ⟨t, ht⟩ | ⟨-, item, hmem, -⟩
      · exact absurd ht (htext t)
      · rw [members_eq_nil h] at hmem
        exact absurd hmem List.not_mem_nil
    | nested hmem h =>
      rcases hbad with ⟨t, ht⟩ | ⟨hplain, -⟩
      · exact absurd ht (ne_text_of_mem_members hmem t)
      · rw [hplain _ hmem] at h
        cases h
    | words hcollection hmembers hne =>
      rcases hbad with ⟨t, rfl⟩ | ⟨-, item, hmem, hword⟩
      · cases hcollection
      · rw [hmembers] at hmem
        obtain ⟨w, hw, rfl⟩ := List.mem_map.mp hmem
        rw [isWord_text (hne w hw)] at hword
        cases hword
  · rintro ⟨fault, hfault, hfield⟩
    cases hread with
    | bareText h => exact Or.inl ⟨_, h⟩
    | invalid hplain hmem h => exact Or.inr ⟨hplain, _, hmem, h⟩
    | notACollection _ _ | nested _ _ => cases hfault; cases hfield
    | words _ _ _ => cases hfault

theorem field?_ne_of_readWords {given : Setting} {fault : Fault}
    (h : readWords given = .error fault) : fault.field? ≠ some stringStyleField := by
  have hread := readsWords_readWords given
  rw [h] at hread
  cases hread with
  | bareText _ | invalid _ _ _ => exact fun heq => absurd (Option.some.inj heq) (by decide)
  | notACollection _ _ | nested _ _ => exact nofun

/-! ### Documents -/

/-- **The style goes first, then the words.** -/
theorem ofFields_eq (fields : List (Text × Setting)) :
    ofFields fields = do
      let stringStyle ← styleOf (Draft.field? stringStyleField fields)
      let extraKeywords ← Draft.readKeywords (Draft.field? extraKeywordsField fields)
      return {
        lenientSharps := (Draft.field? lenientSharpsField fields).getD (.bool false)
        extraKeywords := extraKeywords
        stringStyle := stringStyle } := by
  simp only [ofFields, Draft.ofFields, Draft.build, styleOf, bind_assoc, pure_bind]

theorem bind_eq_error_iff {α β : Type} {x : Except Fault α} {next : α → Except Fault β}
    {fault : Fault} :
    x >>= next = .error fault ↔
      x = .error fault ∨ ∃ a, x = .ok a ∧ next a = .error fault := by
  cases x with
  | error other =>
    have hbind : (Except.error other >>= next) = .error other := rfl
    rw [hbind, Except.error.injEq, Except.error.injEq]
    exact ⟨Or.inl, fun h => h.elim id nofun⟩
  | ok a =>
    refine ⟨fun h => Or.inr ⟨a, rfl, h⟩, fun h => ?_⟩
    rcases h with h | ⟨b, hb, h⟩
    · cases h
    · cases hb
      exact h

theorem ofFields_eq_error_iff {fields : List (Text × Setting)} {fault : Fault} :
    ofFields fields = .error fault ↔
      styleOf (Draft.field? stringStyleField fields) = .error fault ∨
        StyleFine fields ∧
          ∃ given ∈ Draft.field? extraKeywordsField fields, readWords given = .error fault := by
  have hwords {given : Option Setting} :
      Draft.readKeywords given = .error fault ↔ ∃ g ∈ given, readWords g = .error fault := by
    cases given with
    | none => exact ⟨nofun, nofun⟩
    | some g => exact ⟨fun h => ⟨g, rfl, h⟩, fun ⟨_, hg, h⟩ => Option.some.inj hg ▸ h⟩
  have hpure {words : WordSet} {style : Style} :
      (pure ⟨(Draft.field? lenientSharpsField fields).getD (.bool false), words, style⟩ :
        Except Fault Config) ≠ .error fault := nofun
  rw [ofFields_eq, bind_eq_error_iff, styleFine_iff]
  simp only [bind_eq_error_iff, hwords, hpure, and_false, exists_false, or_false, exists_and_right]

/-- Some fault that is reported under a field, or under none. -/
def FailsUnder (fields : List (Text × Setting)) (field : Option Text) : Prop :=
  ∃ fault, ofSetting (.object fields) = .error fault ∧ fault.field? = field

theorem failsUnder_style_iff {fields : List (Text × Setting)} :
    FailsUnder fields (some stringStyleField) ↔ ¬ StyleFine fields := by
  constructor
  · rintro ⟨fault, hfault, hfield⟩ hfine
    rcases ofFields_eq_error_iff.mp hfault with hstyle | ⟨-, given, -, hwords⟩
    · obtain ⟨style, hok⟩ := styleFine_iff.mp hfine
      rw [hok] at hstyle
      cases hstyle
    · exact field?_ne_of_readWords hwords hfield
  · intro hfine
    cases hstyle : styleOf (Draft.field? stringStyleField fields) with
    | ok style => exact absurd (styleFine_iff.mpr ⟨style, hstyle⟩) hfine
    | error fault =>
      exact ⟨fault, ofFields_eq_error_iff.mpr (Or.inl hstyle), field?_of_styleOf hstyle⟩

/-- Under another field, or under none, only the words can fail. -/
theorem failsUnder_iff_of_ne {fields : List (Text × Setting)} {field : Option Text}
    (hne : field ≠ some stringStyleField) :
    FailsUnder fields field ↔
      StyleFine fields ∧ ∃ given ∈ Draft.field? extraKeywordsField fields,
        ∃ fault, readWords given = .error fault ∧ fault.field? = field := by
  constructor
  · rintro ⟨fault, hfault, hfield⟩
    rcases ofFields_eq_error_iff.mp hfault with hstyle | ⟨hfine, given, hgiven, hwords⟩
    · exact absurd (hfield.symm.trans (field?_of_styleOf hstyle)) hne
    · exact ⟨hfine, given, hgiven, fault, hwords, hfield⟩
  · rintro ⟨hfine, given, hgiven, fault, hwords, hfield⟩
    exact ⟨fault, ofFields_eq_error_iff.mpr (Or.inr ⟨hfine, given, hgiven, hwords⟩), hfield⟩

/-- **Under which field a configuration is rejected.**  Under the style exactly if it is
there and not one of the six names.  Otherwise under the further keywords exactly if they are
one text, or a set with a member that is empty or not a text.  And under no field at all
exactly if there is no set of the further keywords. -/
theorem fault_fields (fields : List (Text × Setting)) :
    (FailsUnder fields (some stringStyleField) ↔ ¬ StyleFine fields) ∧
      (FailsUnder fields (some extraKeywordsField) ↔
        StyleFine fields ∧ ∃ given ∈ Draft.field? extraKeywordsField fields, BadWords given) ∧
      (FailsUnder fields none ↔
        StyleFine fields ∧ ∃ given ∈ Draft.field? extraKeywordsField fields, NoSet given) := by
  refine ⟨failsUnder_style_iff, ?_, ?_⟩
  · rw [failsUnder_iff_of_ne (by decide)]
    simp only [badWords_iff]
  · rw [failsUnder_iff_of_ne (by decide)]
    simp only [noSet_iff]

/-- A list among the words is no word, but there is no set with a list in it; and nothing at
all is no collection of words.  Neither fault names the field. -/
theorem words_without_set :
    let rejected (given : Setting) (fault : Fault) : Prop :=
      ofSetting (.object [(extraKeywordsField, given)]) = .error fault ∧ fault.field? = none
    (∃ fault, rejected (.list [.list [.text "a".toList]]) fault ∧
        fault.message = "unhashable type: 'list'".toList) ∧
      ∃ fault, rejected .null fault ∧
        fault.message = "'NoneType' object is not iterable".toList :=
  ⟨⟨_, ⟨rfl, rfl⟩, by decide⟩, ⟨_, ⟨rfl, rfl⟩, by decide⟩⟩

end ChipHighlight.Config
