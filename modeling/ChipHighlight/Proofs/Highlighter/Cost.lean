import ChipHighlight.Proofs.Highlighter.UpToDate

/-!
# What an edit costs

Some lines `old` of a document become `new`, and what is open behind them is the same as
before.  A highlighter that is up to date then reads the new lines and little more: behind
any point in the lines that follow, the old rows can be kept (`keepsBehind_edit`), provided
that some old line stands in front of that point, whose row is the one that is compared.
So reading goes on at most to the end of `new`; only when there is no new line to read, or
no old line in front, does it take the first line behind the edit as well.
-/

namespace ChipHighlight

/-! ### Where reading again stops -/

theorem Row.number_of_mem_endings {number n : Int} {lines : List Text} {rows : List Row}
    {chars tokens depth : Nat} (h : .lineEnd n chars tokens depth ∈ endings number lines rows) :
    number ≤ n ∧ n < number + lines.length := by
  induction lines generalizing number rows with
  | nil => cases h
  | cons line lines ih =>
    cases rows with
    | nil => cases h
    | cons row rows =>
      rw [List.length_cons]
      rcases List.mem_cons.mp h with heq | hmem
      · cases heq
        omega
      · have := ih hmem
        omega

section Rescan

variable {mode : Mode} {rules : Rules} {old : List Row} {shared : Nat} {shift number : Int}
  {stack : Stack} {lines : List Text}

/-- **Reading again stops** at the latest where the old rows can be kept. -/
theorem scanned_rescan_le {n : Nat} (hpos : 0 < n)
    (hkept : n < lines.length → ∃ kept, mode.keepsBehind rules old shared stack lines n = some kept) :
    (mode.rescan rules old shared shift number stack lines).scanned ≤ n := by
  rcases rescan_cases mode rules old shared shift number stack lines with
    ⟨hnone, heq⟩ | ⟨m, kept, -, hlt, hnone, -, heq⟩
  · rw [heq]
    refine Nat.le_of_not_lt fun hlt => ?_
    obtain ⟨kept, hsome⟩ := hkept hlt
    rw [hnone n hpos hlt] at hsome
    cases hsome
  · rw [heq]
    refine Nat.le_of_not_lt fun hm => ?_
    obtain ⟨kept, hsome⟩ := hkept (Nat.lt_trans hm hlt)
    rw [hnone n hpos hm] at hsome
    cases hsome

theorem number_of_mem_rescan {n : Int} {chars tokens depth : Nat}
    (h : .lineEnd n chars tokens depth ∈
      (mode.rescan rules old shared shift number stack lines).events) :
    number ≤ n ∧
      n < number + (mode.rescan rules old shared shift number stack lines).scanned := by
  rcases rescan_cases mode rules old shared shift number stack lines with
    ⟨-, heq⟩ | ⟨m, kept, -, hlt, -, -, heq⟩
  · rw [heq] at h ⊢
    exact Row.number_of_mem_endings h
  · rw [heq] at h ⊢
    rcases List.mem_append.mp h with hend | hconverged
    · have hnumber := Row.number_of_mem_endings hend
      rwa [List.length_take_of_le (Nat.le_of_lt hlt)] at hnumber
    · cases List.mem_singleton.mp hconverged

end Rescan

/-! ### Edits -/

section Edit

variable {mode : Mode} {rules : Rules} {before old new after : List Text}

/-- **Behind an edit the old rows can be kept**, at any point in front of which an old line
stands. -/
theorem keepsBehind_edit
    (hopen : mode.carry rules mode.start (before ++ new) =
      mode.carry rules mode.start (before ++ old)) {j : Nat} (hj : j < after.length)
    (hfront : 0 < (before ++ old).length + j) :
    ∃ kept, mode.keepsBehind rules (mode.rows rules false 1 mode.start (before ++ old ++ after))
      (sharedEnd (before ++ old ++ after) (before ++ new ++ after))
      (mode.carry rules mode.start before) (new ++ after) (new.length + j) = some kept := by
  have hleft : (new ++ after).length - (new.length + j) = after.length - j := by
    rw [List.length_append]
    omega
  have hpoint : ∀ front : List Text,
      (front ++ after).length - (after.length - j) = front.length + j := by
    intro front
    rw [List.length_append]
    omega
  have hlt : after.length - j < (before ++ old ++ after).length := by
    rw [List.length_append]
    omega
  -- what is open at the point, in the old document and in the new one
  have hold := @stack_in_front mode rules 1 mode.start (before ++ old ++ after) _ hlt
  rw [hpoint, List.take_length_add_append, Mode.carry_append, ← hopen, ← hpoint] at hold
  have hnew : mode.carry rules (mode.carry rules mode.start before)
      ((new ++ after).take (new.length + j)) =
        mode.carry rules (mode.carry rules mode.start (before ++ new)) (after.take j) := by
    rw [List.take_length_add_append, Mode.carry_append, Mode.carry_append]
  refine ⟨_, keptAfter?_eq_some_iff.mpr ⟨?_, ?_, ?_, ?_, rfl⟩⟩
  · omega
  · rw [hleft, le_sharedEnd_iff, hpoint, hpoint, List.drop_length_add_append,
      List.drop_length_add_append]
    refine ⟨Nat.le_of_lt hlt, ?_, rfl⟩
    rw [List.length_append]
    omega
  · rwa [hleft, Mode.length_rows]
  · rwa [hleft, Mode.length_rows, hnew]

end Edit

namespace Highlighter

/-- **An edit costs what it changes.**  If the rows are up to date and what is open behind the
edited lines is what was open there, then no more lines are read than there are new ones, or
one if there are none; and one more at most if the document began with what was edited and
nothing was there.  So of the lines behind the edit none but the first is ever read. -/
theorem scanned_edit_le {h : Highlighter} {config : Config} {before old new after : List Text}
    (hup : h.UpToDate) (hcurrent : h.isCurrent config = true)
    (hlines : h.lines = before ++ old ++ after)
    (hopen : h.mode.carry config.rules h.mode.start (before ++ new) =
      h.mode.carry config.rules h.mode.start (before ++ old)) :
    let edit := h.update config (before ++ new ++ after) before.length
    (before ++ old ≠ [] → edit.scanned ≤ max 1 new.length) ∧
      (before ++ old = [] → edit.scanned ≤ new.length + 1) ∧
      ∀ number chars tokens depth, .lineEnd number chars tokens depth ∈ edit.events →
        before.length < number ∧ number ≤ before.length + new.length + 1 := by
  intro edit
  obtain ⟨kept, hkept, hsame⟩ := isCurrent_iff.mp hcurrent
  have hrows : h.rows =
      h.mode.rows config.rules false 1 h.mode.start (before ++ old ++ after) := by
    rw [hup kept hkept, ← Config.rules_of_same hsame, hlines]
  have haccepts : h.acceptsStart before.length = true := by
    rw [acceptsStart_iff, hlines]
    simp only [List.length_append]
    omega
  have hstart : h.startOf before.length (before ++ new ++ after) = before.length := by
    rw [startOf, if_pos haccepts]
    simp only [List.length_append]
    omega
  let rescan := h.rescanFrom config.rules before.length (before ++ new ++ after)
  have hscanned : edit.scanned = rescan.scanned := by
    rw [scanned_update, refresh_of_current hcurrent, hstart]
  have hevents : edit.events = rescan.events := by
    show h.refreshEvents config ++ (h.refresh config).startEvents before.length ++
      ((h.refresh config).rescanFrom config.rules
        ((h.refresh config).startOf before.length (before ++ new ++ after))
        (before ++ new ++ after)).events = _
    rw [refresh_of_current hcurrent, hstart, refreshEvents, hcurrent, startEvents, haccepts]
    rfl
  have hrescan : rescan = h.mode.rescan config.rules
      (h.mode.rows config.rules false 1 h.mode.start (before ++ old ++ after))
      (sharedEnd (before ++ old ++ after) (before ++ new ++ after))
      ((before ++ new ++ after).length - (before ++ old ++ after).length) (before.length + 1)
      (h.mode.carry config.rules h.mode.start before) (new ++ after) := by
    show h.rescanFrom _ _ _ = _
    rw [rescanFrom, hrows, hlines, Mode.take_rows, Mode.stackAfter_rows]
    simp only [List.append_assoc, List.take_left, List.drop_left]
  -- behind the new lines and `j` more the old rows can be kept
  have hle : ∀ j, 0 < new.length + j → 0 < (before ++ old).length + j →
      edit.scanned ≤ new.length + j := by
    intro j hpos hfront
    rw [hscanned, hrescan]
    refine scanned_rescan_le hpos fun hlt => keepsBehind_edit hopen ?_ hfront
    rw [List.length_append] at hlt
    omega
  have hone : edit.scanned ≤ new.length + 1 := hle 1 (Nat.succ_pos _) (Nat.succ_pos _)
  refine ⟨fun hne => ?_, fun _ => hone, ?_⟩
  · by_cases hnew : new.length = 0
    · omega
    · have := hle 0 (by omega) (by rw [Nat.add_zero]; exact List.length_pos_iff.mpr hne)
      omega
  · intro number chars tokens depth hmem
    rw [hevents, hrescan] at hmem
    have := number_of_mem_rescan hmem
    rw [← hrescan, ← hscanned] at this
    omega

/-- A literal is edited on the line that it ends on, and one of the equal lines behind it is
deleted, so the documents end alike from within the edit on and reading stops there. -/
theorem scanned_after_deletion :
    let before := ["c4 'a".toList]
    let old := ["b' 3".toList, "x".toList, "x".toList]
    let new := ["'e".toList, "x".toList]
    let after := ["x".toList, "d".toList]
    let h := ((Highlighter.new .blip).update .default (before ++ old ++ after) 0).highlighter
    let edit := h.update .default (before ++ new ++ after) before.length
    (h.UpToDate ∧ h.isCurrent .default = true ∧ h.lines = before ++ old ++ after ∧
      h.mode.carry (Config.rules .default) h.mode.start (before ++ new) =
        h.mode.carry (Config.rules .default) h.mode.start (before ++ old)) ∧
      before ++ old ≠ [] ∧ edit.scanned ≤ max 1 new.length ∧ edit.scanned = 1 := by
  intro before old new after h edit
  have hup : h.UpToDate := by
    rintro kept ⟨⟩
    decide +kernel
  have hopen : h.mode.carry (Config.rules .default) h.mode.start (before ++ new) =
      h.mode.carry (Config.rules .default) h.mode.start (before ++ old) := by decide +kernel
  have hne : before ++ old ≠ [] := List.cons_ne_nil _ _
  exact ⟨⟨hup, by decide +kernel, rfl, hopen⟩, hne,
    (scanned_edit_le hup (by decide +kernel) rfl hopen).1 hne, by decide +kernel⟩

end Highlighter

end ChipHighlight
