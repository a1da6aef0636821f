import ChipHighlight.Proofs.Highlighter.Rescan

/-!
# Highlighters that are up to date

A highlighter is up to date when its rows are those of a full scan of its lines under
the configuration that it keeps.  `upToDate_update`: an update leaves it so, provided
that the lines in front of the point where reading starts are those that it had.  Then
the rows it is left with are those of a full scan under the active configuration as
well (`rows_update`), since that one is equal to the one that is kept.

Whether the lines in front are the old ones is up to the host, but not always: under
another configuration, and after a start that is not accepted, there are no lines in
front (`startOf_refresh_of_not_current`, `startOf_of_rejected`).
-/

namespace ChipHighlight.Highlighter

/-- **The rows are those of a full scan**, under the configuration that is kept. -/
def UpToDate (h : Highlighter) : Prop :=
  ∀ kept ∈ h.config, h.rows = h.mode.rows kept.rules false 1 h.mode.start h.lines

theorem upToDate_new (mode : Mode) : (new mode).UpToDate := fun _ hkept => nomatch hkept

/-! ### Refreshing -/

theorem isCurrent_iff {h : Highlighter} {config : Config} :
    h.isCurrent config = true ↔ ∃ kept, h.config = some kept ∧ config.same kept = true := by
  unfold isCurrent
  cases h.config with
  | none => simp
  | some kept => simp

theorem refresh_of_current {h : Highlighter} {config : Config} (hc : h.isCurrent config = true) :
    h.refresh config = h := if_pos hc

theorem refresh_of_not_current {h : Highlighter} {config : Config}
    (hc : h.isCurrent config = false) :
    h.refresh config = { h with lines := [], rows := [], config := some config } :=
  if_neg (by rw [hc]; exact Bool.false_ne_true)

@[simp] theorem mode_refresh (h : Highlighter) (config : Config) :
    (h.refresh config).mode = h.mode := by
  unfold refresh
  split <;> rfl

theorem exists_config_refresh (h : Highlighter) (config : Config) :
    ∃ kept, (h.refresh config).config = some kept ∧ config.same kept = true := by
  cases hc : h.isCurrent config with
  | true =>
    rw [refresh_of_current hc]
    exact isCurrent_iff.mp hc
  | false =>
    rw [refresh_of_not_current hc]
    exact ⟨config, rfl, config.same_refl⟩

theorem upToDate_refresh {h : Highlighter} (hup : h.UpToDate) (config : Config) :
    (h.refresh config).UpToDate := by
  cases hc : h.isCurrent config with
  | true => rwa [refresh_of_current hc]
  | false =>
    rw [refresh_of_not_current hc]
    exact fun _ _ => rfl

/-! ### Where reading starts -/

theorem acceptsStart_iff {h : Highlighter} {first : Int} :
    h.acceptsStart first = true ↔ 0 ≤ first ∧ first ≤ h.lines.length := by
  simp [acceptsStart]

theorem startOf_of_rejected {h : Highlighter} {first : Int}
    (hout : first < 0 ∨ h.lines.length < first) (lines : List Text) :
    h.startOf first lines = 0 := by
  unfold startOf
  rw [if_neg]
  rw [acceptsStart_iff]
  omega

theorem startOf_refresh_of_not_current {h : Highlighter} {config : Config}
    (hc : h.isCurrent config = false) (first : Int) (lines : List Text) :
    (h.refresh config).startOf first lines = 0 := by
  rw [refresh_of_not_current hc]
  by_cases h0 : first = 0
  · subst h0
    unfold startOf
    split
    · exact Nat.zero_min _
    · rfl
  · exact startOf_of_rejected (by simp only [List.length_nil]; omega) lines

theorem startOf_le_length (h : Highlighter) (first : Int) (lines : List Text) :
    h.startOf first lines ≤ lines.length := by
  unfold startOf
  split
  · exact Nat.min_le_right _ _
  · exact Nat.zero_le _

/-! ### Updates -/

@[simp] theorem mode_update (h : Highlighter) (config : Config) (lines : List Text) (first : Int) :
    (h.update config lines first).highlighter.mode = h.mode := mode_refresh h config

@[simp] theorem lines_update (h : Highlighter) (config : Config) (lines : List Text) (first : Int) :
    (h.update config lines first).highlighter.lines = lines := rfl

@[simp] theorem config_update (h : Highlighter) (config : Config) (lines : List Text)
    (first : Int) :
    (h.update config lines first).highlighter.config = (h.refresh config).config := rfl

theorem scanned_update (h : Highlighter) (config : Config) (lines : List Text) (first : Int) :
    (h.update config lines first).scanned =
      ((h.refresh config).rescanFrom config.rules ((h.refresh config).startOf first lines)
        lines).scanned := rfl

theorem rows_update_eq_append (h : Highlighter) (config : Config) (lines : List Text)
    (first : Int) :
    (h.update config lines first).highlighter.rows =
      (h.refresh config).rows.take ((h.refresh config).startOf first lines) ++
        ((h.refresh config).rescanFrom config.rules ((h.refresh config).startOf first lines)
          lines).rows := rfl

/-- The lines in front of the point where reading starts are those that are kept. -/
def KeepsFront (h : Highlighter) (config : Config) (lines : List Text) (first : Int) : Prop :=
  (h.refresh config).lines.take ((h.refresh config).startOf first lines) =
    lines.take ((h.refresh config).startOf first lines)

/-- **An update comes to a full scan** under the active configuration. -/
theorem rows_update {h : Highlighter} (hup : h.UpToDate) {config : Config} {lines : List Text}
    {first : Int} (hfront : h.KeepsFront config lines first) :
    (h.update config lines first).highlighter.rows =
      h.mode.rows config.rules false 1 h.mode.start lines := by
  obtain ⟨kept, hkept, hsame⟩ := exists_config_refresh h config
  have hrows := upToDate_refresh hup config kept hkept
  rw [← Config.rules_of_same hsame, mode_refresh] at hrows
  have hle := startOf_le_length (h.refresh config) first lines
  unfold KeepsFront at hfront
  rw [rows_update_eq_append, rescanFrom]
  generalize (h.refresh config).startOf first lines = start at hfront hle ⊢
  have hnumber : (start : Int) + 1 = 1 + (lines.take start).length := by
    rw [List.length_take_of_le hle]
    omega
  rw [hrows, Mode.take_rows, mode_refresh, Mode.stackAfter_rows, hfront, rows_rescan, hnumber,
    ← Mode.rows_split]

theorem upToDate_update {h : Highlighter} (hup : h.UpToDate) {config : Config} {lines : List Text}
    {first : Int} (hfront : h.KeepsFront config lines first) :
    (h.update config lines first).highlighter.UpToDate := by
  obtain ⟨kept, hkept, hsame⟩ := exists_config_refresh h config
  intro other hother
  rw [config_update, hkept, Option.mem_some_iff] at hother
  rw [rows_update hup hfront, mode_update, lines_update, ← hother, Config.rules_of_same hsame]

end ChipHighlight.Highlighter
