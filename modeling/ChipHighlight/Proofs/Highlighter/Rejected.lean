import ChipHighlight.Proofs.Highlighter.UpToDate

/-!
# Edits that start nowhere

When an edit is said to start where the document has no line, reading starts at the
first line.  It does not go on to the last for that reason: the rows that are kept are
still there, and reading stops as soon as it meets them again.  Every line is read
exactly when the configuration is another one, or when the new document and the old one
never rejoin (`Rejoins`).  They rejoin in front of `r` common last lines if what the old
row there left is what is open there in a full scan.

What is kept may have come about in any way.  If all lines are read the outcome is
that of a new highlighter; if not, the last rows are the old ones, right or wrong.
-/

namespace ChipHighlight.Highlighter

/-- **The document rejoins the kept one** in front of its last `r` lines: both end in
them, some line of both stands in front, and the row that is kept there left what is
open there when the document is read from its first line. -/
structure Rejoins (h : Highlighter) (rules : Rules) (lines : List Text) (r : Nat) : Prop where
  pos : 0 < r
  lt_length : r < lines.length
  lt_rows : r < h.rows.length
  le_lines : r ≤ h.lines.length
  ending : h.lines.drop (h.lines.length - r) = lines.drop (lines.length - r)
  stack : (h.rows[h.rows.length - r - 1]?).map Row.stack =
    some (h.mode.carry rules h.mode.start (lines.take (lines.length - r)))

/-- The rows can be kept behind `n` lines exactly when the rest of the document is
where it rejoins the kept one. -/
theorem exists_keepsBehind_iff {h : Highlighter} {rules : Rules} {lines : List Text} {n : Nat}
    (hpos : 0 < n) (hlt : n < lines.length) :
    (∃ kept, h.mode.keepsBehind rules h.rows (sharedEnd h.lines lines) h.mode.start lines n =
        some kept) ↔ h.Rejoins rules lines (lines.length - n) := by
  have hn : lines.length - (lines.length - n) = n := by omega
  simp only [Mode.keepsBehind, keptAfter?_eq_some_iff, le_sharedEnd_iff]
  constructor
  · rintro ⟨kept, hr, ⟨hold, hnew, hend⟩, hrows, hstack, -⟩
    exact ⟨hr, by omega, hrows, hold, hend, by rw [hn]; exact hstack⟩
  · intro hj
    refine ⟨_, hj.pos, ⟨hj.le_lines, by omega, hj.ending⟩, hj.lt_rows, ?_, rfl⟩
    rw [hj.stack, hn]

theorem keepsBehind_nil (mode : Mode) (rules : Rules) (shared : Nat) (stack : Stack)
    (lines : List Text) (n : Nat) : mode.keepsBehind rules [] shared stack lines n = none :=
  keptAfter?_nil _ _ _

theorem rescanFrom_zero (h : Highlighter) (rules : Rules) (lines : List Text) :
    h.rescanFrom rules 0 lines =
      h.mode.rescan rules h.rows (sharedEnd h.lines lines) (lines.length - h.lines.length) 1
        h.mode.start lines := rfl

theorem startOf_refresh_of_rejected {h : Highlighter} {first : Int}
    (hout : first < 0 ∨ h.lines.length < first) (config : Config) (lines : List Text) :
    (h.refresh config).startOf first lines = 0 := by
  cases hc : h.isCurrent config with
  | true =>
    rw [refresh_of_current hc]
    exact startOf_of_rejected hout lines
  | false => exact startOf_refresh_of_not_current hc first lines

theorem rows_update_new (mode : Mode) (config : Config) (lines : List Text) (first : Int) :
    ((new mode).update config lines first).highlighter.rows =
      mode.rows config.rules false 1 mode.start lines := by
  refine rows_update (upToDate_new mode) ?_
  have hstart : ((new mode).refresh config).startOf first lines = 0 :=
    startOf_refresh_of_not_current rfl first lines
  rw [KeepsFront, hstart, List.take_zero, List.take_zero]

/-- **When an edit that starts nowhere reads every line**, and that the highlighter is
then left as a new one would be. -/
theorem scanned_rejected_iff (h : Highlighter) (config : Config) (lines : List Text) (first : Int)
    (hout : first < 0 ∨ h.lines.length < first) :
    ((h.update config lines first).scanned = lines.length ↔
        (h.isCurrent config = true → ∀ r, ¬ h.Rejoins config.rules lines r)) ∧
      ((h.update config lines first).scanned = lines.length →
        (h.update config lines first).highlighter.lines =
            ((new h.mode).update config lines 0).highlighter.lines ∧
          (h.update config lines first).highlighter.rows =
            ((new h.mode).update config lines 0).highlighter.rows) := by
  have hstart := startOf_refresh_of_rejected hout config lines
  rw [scanned_update, rows_update_eq_append, hstart, rescanFrom_zero, List.take_zero,
    List.nil_append, lines_update, lines_update, rows_update_new, mode_refresh]
  rcases rescan_cases h.mode config.rules (h.refresh config).rows
      (sharedEnd (h.refresh config).lines lines)
      (lines.length - (h.refresh config).lines.length) 1 h.mode.start lines with
    ⟨hnone, heq⟩ | ⟨n, kept, hpos, hlt, -, hsome, heq⟩
  · -- every line is read, so nothing could be kept anywhere
    rw [heq]
    refine ⟨⟨fun _ hc r hj => ?_, fun _ => rfl⟩, fun _ => ⟨rfl, rfl⟩⟩
    rw [refresh_of_current hc] at hnone
    have hr := hj.pos
    have hlen := hj.lt_length
    have hback : lines.length - (lines.length - r) = r := by omega
    rw [← hback] at hj
    obtain ⟨kept, hkept⟩ := (exists_keepsBehind_iff (by omega) (by omega)).mpr hj
    rw [hnone _ (by omega) (by omega)] at hkept
    cases hkept
  · -- reading stopped early, which takes rows that were kept under this configuration
    rw [heq]
    refine ⟨⟨fun hall => ?_, fun hno => ?_⟩, fun hall => ?_⟩
    · dsimp only at hall
      omega
    · cases hc : h.isCurrent config with
      | true =>
        rw [refresh_of_current hc] at hsome
        exact absurd ((exists_keepsBehind_iff hpos hlt).mp ⟨kept, hsome⟩) (hno hc _)
      | false =>
        rw [refresh_of_not_current hc, keepsBehind_nil] at hsome
        cases hsome
    · dsimp only at hall
      omega

/-- Two lines change places, and the edit is said to start far behind them. -/
theorem scanned_after_swap :
    let h := ((new .blip).update .default ["d".toList, "a".toList] 0).highlighter
    let swapped := ["a".toList, "d".toList]
    ((h.lines.length : Int) < 10 ∧ (h.update .default swapped 10).scanned = swapped.length) ∧
      (h.update .default swapped 10).highlighter.rows =
        ((new .blip).update .default swapped 0).highlighter.rows := by
  intro h swapped
  have hout : (h.lines.length : Int) < 10 := by decide
  have hall : (h.update .default swapped 10).scanned = swapped.length := by decide +kernel
  have hrows := ((scanned_rejected_iff h .default swapped 10 (Or.inr hout)).2 hall).2
  exact ⟨⟨hout, hall⟩, hrows⟩

/-- **A row that is out of date outlives an edit that starts nowhere.**  An update
passed over the second of three lines; the next one reads a single line and keeps what
stood there before. -/
theorem stale_row_after_rejected :
    let document := ["0".toList, "c4".toList, "2".toList]
    let h := ((new .blip).update .default ["0".toList, "1".toList, "2".toList] 0).highlighter
    let stale := (h.update .default document 2).highlighter
    (stale.update .default document (-1)).scanned = 1 ∧
      (stale.update .default document (-1)).highlighter.rows ≠
        ((new .blip).update .default document 0).highlighter.rows := by
  decide +kernel

end ChipHighlight.Highlighter
