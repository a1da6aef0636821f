import ChipHighlight.Proofs.Config.Faults

/-!
# Which documents describe a configuration

A document describes a configuration if the style of literals is absent or one of the six
names, and the further keywords are absent, a list of texts of which none is empty, or an
object of which no field has the empty name.  Nothing else is looked at: the configuration
that comes out (`Describes`) is fixed by the value of the first setting, by the style, and by
which words are listed (`ofSetting_eq_ok_iff`), so neither the order of the words nor how
often one is listed shows.

Every configuration that was built, from a document or by hand, can be written as a document
again, its words listed in any order and any number of times, and that document describes it.
-/

namespace ChipHighlight.Config

theorem bind_eq_ok_iff {α β : Type} {x : Except Fault α} {next : α → Except Fault β} {b : β} :
    x >>= next = .ok b ↔ ∃ a, x = .ok a ∧ next a = .ok b := by
  cases x <;> simp [bind, Except.bind]

/-! ### Styles -/

theorem name_inj {style other : Style} (h : style.name = other.name) : style = other := by
  have hname := Style.ofName?_name style
  rw [h, Style.ofName?_name] at hname
  exact (Option.some.inj hname).symm

/-- The style is the one that is named, or the one of texts if none is. -/
theorem styleOf_eq_ok_iff {given : Option Setting} {style : Style} :
    styleOf given = .ok style ↔ given.getD (.text Style.string.name) = .text style.name := by
  have hread := readsStyle_styleOf given
  generalize styleOf given = result at hread ⊢
  have htext {name : Text} : Setting.text name = .text style.name ↔ name = style.name := by simp
  cases hread with
  | absent =>
    rw [Option.getD_none, htext, Except.ok.injEq]
    exact ⟨congrArg _, name_inj⟩
  | named other =>
    rw [Option.getD_some, htext, Except.ok.injEq]
    exact ⟨congrArg _, name_inj⟩
  | unknown h =>
    rw [Option.getD_some, htext]
    exact ⟨nofun, fun hname => absurd hname.symm (h style)⟩
  | notAStyle h => exact ⟨nofun, fun hname => absurd hname (h style.name)⟩

/-! ### Words -/

/-- A list of texts of which none is empty, or an object of which no field has the empty
name. -/
def FineWords (given : Setting) : Prop :=
  (∃ words : List Text, given = .list (words.map .text) ∧ ∀ w ∈ words, w ≠ []) ∨
    ∃ entries : List (Text × Setting), given = .object entries ∧ ∀ entry ∈ entries, entry.1 ≠ []

theorem fineWords_iff {given : Setting} :
    FineWords given ↔ isNested given = true ∧
      ∃ words : List Text, members given = words.map .text ∧ ∀ w ∈ words, w ≠ [] := by
  constructor
  · rintro (⟨words, rfl, hne⟩ | ⟨entries, rfl, hne⟩)
    · exact ⟨rfl, words, rfl, hne⟩
    · refine ⟨rfl, entries.map Prod.fst, by simp [members], ?_⟩
      intro w hw
      obtain ⟨entry, hentry, rfl⟩ := List.mem_map.mp hw
      exact hne entry hentry
  · rintro ⟨hcollection, words, hmembers, hne⟩
    cases given with
    | list items => exact Or.inl ⟨words, congrArg Setting.list hmembers, hne⟩
    | object entries =>
      refine Or.inr ⟨entries, rfl, fun entry hentry => ?_⟩
      have hmem : Setting.text entry.1 ∈ words.map .text := by
        rw [← hmembers]
        exact List.mem_map.mpr ⟨entry, hentry, rfl⟩
      obtain ⟨w, hw, heq⟩ := List.mem_map.mp hmem
      rw [← Setting.text.inj heq]
      exact hne w hw
    | _ => cases hcollection

theorem text_mem_map {words : List Text} {w : Text} :
    Setting.text w ∈ words.map .text ↔ w ∈ words := by
  simp

/-- **The words are the members of the collection.** -/
theorem readWords_eq_ok_iff {given : Setting} {set : WordSet} :
    readWords given = .ok set ↔
      FineWords given ∧ ∀ w, w ∈ set.toList ↔ .text w ∈ members given := by
  have hread := readsWords_readWords given
  rw [fineWords_iff]
  generalize readWords given = result at hread ⊢
  constructor
  · intro hok
    cases hread with
    | words hcollection hmembers hne =>
      cases hok
      refine ⟨⟨hcollection, _, hmembers, hne⟩, fun w => ?_⟩
      rw [hmembers, text_mem_map, WordSet.mem_toList_ofList]
    | bareText _ | notACollection _ _ | nested _ _ | invalid _ _ _ => cases hok
  · rintro ⟨⟨hcollection, words, hmembers, hne⟩, hset⟩
    cases hread with
    | words _ hown _ =>
      refine congrArg Except.ok (WordSet.ext fun w => ?_)
      rw [hset, hown, text_mem_map, WordSet.mem_toList_ofList]
    | bareText h =>
      rw [h] at hcollection
      cases hcollection
    | notACollection _ h =>
      rw [hcollection] at h
      cases h
    | nested hmem h =>
      rw [hmembers] at hmem
      obtain ⟨w, -, rfl⟩ := List.mem_map.mp hmem
      cases h
    | invalid _ hmem h =>
      rw [hmembers] at hmem
      obtain ⟨w, hw, rfl⟩ := List.mem_map.mp hmem
      rw [isWord_text (hne w hw)] at h
      cases h

theorem readKeywords_eq_ok_iff {given : Option Setting} {set : WordSet} :
    Draft.readKeywords given = .ok set ↔ (∀ g ∈ given, FineWords g) ∧
      ∀ w, w ∈ set.toList ↔ ∃ g ∈ given, .text w ∈ members g := by
  cases given with
  | none =>
    have hempty : WordSet.empty = set ↔ ∀ w, w ∉ set.toList := by
      constructor
      · rintro rfl
        exact fun _ => List.not_mem_nil
      · exact fun h => WordSet.ext fun w => iff_of_false List.not_mem_nil (h w)
    simp [Draft.readKeywords, hempty]
  | some g => simp [Draft.readKeywords, readWords_eq_ok_iff]

/-! ### Documents -/

def WordsFine (fields : List (Text × Setting)) : Prop :=
  ∀ given ∈ Draft.field? extraKeywordsField fields, FineWords given

def Lists (fields : List (Text × Setting)) (w : Text) : Prop :=
  ∃ given ∈ Draft.field? extraKeywordsField fields, .text w ∈ members given

/-- **What a configuration has from a document.** -/
structure Describes (fields : List (Text × Setting)) (c : Config) : Prop where
  sharps : c.lenientSharps = (Draft.field? lenientSharpsField fields).getD (.bool false)
  style : (Draft.field? stringStyleField fields).getD (.text Style.string.name) =
    .text c.stringStyle.name
  words : ∀ w, w ∈ c.extraKeywords.toList ↔ Lists fields w

theorem ofSetting_eq_ok_iff {fields : List (Text × Setting)} {c : Config} :
    ofSetting (.object fields) = .ok c ↔ WordsFine fields ∧ Describes fields c := by
  have hpure {style : Style} {words : WordSet} :
      (pure ⟨(Draft.field? lenientSharpsField fields).getD (.bool false), words, style⟩ :
        Except Fault Config) = .ok c ↔
      c = ⟨(Draft.field? lenientSharpsField fields).getD (.bool false), words, style⟩ := by
    rw [eq_comm]
    exact ⟨Except.ok.inj, congrArg _⟩
  rw [ofSetting, ofFields_eq, bind_eq_ok_iff]
  simp only [bind_eq_ok_iff, hpure]
  constructor
  · rintro ⟨style, hstyle, words, hwords, rfl⟩
    obtain ⟨hfine, hlisted⟩ := readKeywords_eq_ok_iff.mp hwords
    exact ⟨hfine, rfl, styleOf_eq_ok_iff.mp hstyle, hlisted⟩
  · rintro ⟨hfine, hsharps, hstyle, hlisted⟩
    refine ⟨_, styleOf_eq_ok_iff.mpr hstyle, _, readKeywords_eq_ok_iff.mpr ⟨hfine, hlisted⟩, ?_⟩
    rw [← hsharps]

theorem exists_readKeywords {given : Option Setting} (h : ∀ g ∈ given, FineWords g) :
    ∃ set, Draft.readKeywords given = .ok set := by
  cases given with
  | none => exact ⟨.empty, rfl⟩
  | some g =>
    obtain ⟨-, words, hmembers, -⟩ := fineWords_iff.mp (h g rfl)
    refine ⟨.ofList words, readWords_eq_ok_iff.mpr ⟨h g rfl, fun w => ?_⟩⟩
    rw [hmembers, text_mem_map, WordSet.mem_toList_ofList]

theorem accepted_iff {fields : List (Text × Setting)} :
    (∃ c, ofSetting (.object fields) = .ok c) ↔ StyleFine fields ∧ WordsFine fields := by
  constructor
  · rintro ⟨c, hc⟩
    obtain ⟨hwords, hdescribes⟩ := ofSetting_eq_ok_iff.mp hc
    exact ⟨styleFine_iff.mpr ⟨_, styleOf_eq_ok_iff.mpr hdescribes.style⟩, hwords⟩
  · rintro ⟨hstyle, hwords⟩
    obtain ⟨style, hstyle⟩ := styleFine_iff.mp hstyle
    obtain ⟨set, hset⟩ := exists_readKeywords hwords
    refine ⟨⟨_, set, style⟩, ofSetting_eq_ok_iff.mpr ⟨hwords, rfl, ?_, ?_⟩⟩
    · exact styleOf_eq_ok_iff.mp hstyle
    · exact (readKeywords_eq_ok_iff.mp hset).2

/-- Two documents that set the same, whatever the order of their words and however often one is
listed. -/
structure SetAlike (fields other : List (Text × Setting)) : Prop where
  sharps : Draft.field? lenientSharpsField other = Draft.field? lenientSharpsField fields
  style : Draft.field? stringStyleField other = Draft.field? stringStyleField fields
  words : ∀ w, Lists other w ↔ Lists fields w

theorem Describes.of_setAlike {fields other : List (Text × Setting)} {c : Config}
    (h : Describes fields c) (halike : SetAlike fields other) : Describes other c where
  sharps := by rw [halike.sharps, h.sharps]
  style := by rw [halike.style, h.style]
  words := fun w => (h.words w).trans (halike.words w).symm

/-- Fields of other names are not looked at. -/
theorem ofSetting_congr {fields other : List (Text × Setting)}
    (h : ∀ name ∈ Draft.names, Draft.field? name other = Draft.field? name fields) :
    ofSetting (.object other) = ofSetting (.object fields) := by
  have hsharps := h lenientSharpsField (by simp [Draft.names])
  have hwords := h extraKeywordsField (by simp [Draft.names])
  have hstyle := h stringStyleField (by simp [Draft.names])
  rw [ofSetting, ofSetting, ofFields_eq, ofFields_eq, hsharps, hwords, hstyle]

/-! ### Configurations as documents -/

def document (c : Config) (words : List Text) : List (Text × Setting) :=
  [(lenientSharpsField, c.lenientSharps), (extraKeywordsField, .list (words.map .text)),
    (stringStyleField, .text c.stringStyle.name)]

theorem ne_nil_of_build {draft : Draft} {c : Config} (h : draft.build = .ok c) :
    ∀ w ∈ c.extraKeywords.toList, w ≠ [] := by
  obtain ⟨style, -, hrest⟩ := bind_eq_ok_iff.mp h
  obtain ⟨set, hset, hc⟩ := bind_eq_ok_iff.mp hrest
  obtain ⟨hfine, hlisted⟩ := readKeywords_eq_ok_iff.mp hset
  cases hc
  intro w hw
  obtain ⟨given, hgiven, hmem⟩ := (hlisted w).mp hw
  obtain ⟨-, words, hmembers, hne⟩ := fineWords_iff.mp (hfine given hgiven)
  rw [hmembers, text_mem_map] at hmem
  exact hne w hmem

/-- **A configuration comes back from its document.** -/
theorem ofSetting_document {draft : Draft} {c : Config} (h : draft.build = .ok c)
    {words : List Text} (hwords : ∀ w, w ∈ words ↔ w ∈ c.extraKeywords.toList) :
    ofSetting (.object (c.document words)) = .ok c := by
  have hsharps : Draft.field? lenientSharpsField (c.document words) = some c.lenientSharps := rfl
  have hlist : Draft.field? extraKeywordsField (c.document words) =
      some (.list (words.map .text)) := rfl
  have hstyle : Draft.field? stringStyleField (c.document words) =
      some (.text c.stringStyle.name) := rfl
  refine ofSetting_eq_ok_iff.mpr ⟨?_, ?_⟩
  · intro given hgiven
    rw [hlist] at hgiven
    cases hgiven
    exact Or.inl ⟨words, rfl, fun w hw => ne_nil_of_build h w ((hwords w).mp hw)⟩
  · refine ⟨?_, ?_, fun w => ?_⟩
    · rw [hsharps, Option.getD_some]
    · rw [hstyle, Option.getD_some]
    · simp [Lists, hlist, members, hwords]

/-- **Which documents are accepted, and what becomes of them.**  A document is accepted exactly if
its style and its words are fine.  Only the three settings are looked at, and of the words only
which they are.  And every configuration that was built comes back from a document that lists its
words in any order and any number of times. -/
theorem documents_accepted :
    (∀ fields, ((∃ c, ofSetting (.object fields) = .ok c) ↔ StyleFine fields ∧ WordsFine fields) ∧
      (∀ other, (∀ name ∈ Draft.names, Draft.field? name other = Draft.field? name fields) →
        ofSetting (.object other) = ofSetting (.object fields)) ∧
      ∀ c, ofSetting (.object fields) = .ok c → Describes fields c ∧
        ∀ other, WordsFine other → SetAlike fields other → ofSetting (.object other) = .ok c) ∧
    ∀ (draft : Draft) (c : Config), draft.build = .ok c →
      ∀ words : List Text, (∀ w, w ∈ words ↔ w ∈ c.extraKeywords.toList) →
        ofSetting (.object (c.document words)) = .ok c := by
  refine ⟨fun fields => ⟨accepted_iff, fun other => ofSetting_congr, fun c hc => ?_⟩,
    fun draft c h words => ofSetting_document h⟩
  obtain ⟨-, hdescribes⟩ := ofSetting_eq_ok_iff.mp hc
  refine ⟨hdescribes, fun other hfine halike => ?_⟩
  exact ofSetting_eq_ok_iff.mpr ⟨hfine, hdescribes.of_setAlike halike⟩

/-- Words that are listed twice, or that are the names of the fields of an object. -/
theorem words_in_any_order :
    let named (words : Setting) : List (Text × Setting) :=
      [("unknown".toList, .null), (extraKeywordsField, words),
        (stringStyleField, .text "comment".toList)]
    let listed := named (.list [.text "bpm".toList, .text "b".toList, .text "bpm".toList])
    let keyed := named (.object [("b".toList, .null), ("bpm".toList, .list [])])
    let keywords := WordSet.ofList ["b".toList, "bpm".toList]
    let c : Config := { extraKeywords := keywords, stringStyle := .comment }
    ofSetting (.object listed) = .ok c ∧ WordsFine keyed ∧ SetAlike listed keyed ∧
      ofSetting (.object keyed) = .ok c ∧
      ofSetting (.object (c.document ["bpm".toList, "b".toList, "b".toList])) = .ok c := by
  intro named listed keyed keywords c
  have hlisted : ofSetting (.object listed) = .ok c := rfl
  have hfine : WordsFine keyed := by
    rintro given ⟨⟩
    exact Or.inr ⟨_, rfl, by simp⟩
  have halike : SetAlike listed keyed := by
    have hlist : Draft.field? extraKeywordsField listed =
        some (.list [.text "bpm".toList, .text "b".toList, .text "bpm".toList]) := rfl
    have hobject : Draft.field? extraKeywordsField keyed =
        some (.object [("b".toList, .null), ("bpm".toList, .list [])]) := rfl
    refine ⟨rfl, rfl, fun w => ?_⟩
    simp only [Lists, hlist, hobject, Option.mem_some, exists_eq_left', members, List.map_cons,
      List.map_nil, List.mem_cons, List.not_mem_nil, or_false, Setting.text.injEq]
    grind
  have hbuild : Draft.build ⟨none, some (.list [.text "b".toList, .text "bpm".toList]),
      some (.style .comment)⟩ = .ok c := rfl
  refine ⟨hlisted, hfine, halike, ?_, ?_⟩
  · exact ((documents_accepted.1 listed).2.2 c hlisted).2 keyed hfine halike
  · refine documents_accepted.2 _ c hbuild _ fun w => ?_
    simp only [c, keywords, WordSet.mem_toList_ofList, List.mem_cons, List.not_mem_nil, or_false]
    grind

end ChipHighlight.Config
