import ChipHighlight.Proofs.Session.Runs

/-!
# Cells of a session

Names lead to cells and scans hold cells.  In every session that a host can get to, all
of these cells are there, and no two names lead to the same one (`Sound`): a name is
always given to a new cell, and cells are never taken away.  So what a scan leaves in its
cell is found there again (`carried_leave`).
-/

namespace ChipHighlight

/-- A carrier whose cell, if it has one, is among the first `n`. -/
def Carrier.Within (n : Nat) : Carrier → Prop
  | own _ => True
  | shared cell => cell < n

namespace Session

/-- **All cells are there**, and a name has its cell to itself. -/
structure Sound (s : Session) : Prop where
  names_lt : ∀ name cell, s.names.get? name = some cell → cell < s.cells.length
  names_inj : ∀ a b cell, s.names.get? a = some cell → s.names.get? b = some cell → a = b
  scans_within : ∀ name running, s.scans.get? name = some running →
    running.carrier.Within s.cells.length

theorem sound_new : ({} : Session).Sound := ⟨nofun, nofun, nofun⟩

variable {s t : Session}

theorem Provides.within (hs : s.Sound) {job : Job} {carrier : Carrier}
    (h : s.Provides job carrier) : carrier.Within s.cells.length := by
  cases h with
  | own _ => exact trivial
  | shared _ hcell => exact hs.names_lt _ _ hcell

/-! ### What a scan leaves -/

@[simp] theorem length_cells_leave (s : Session) (stack : Stack) (carrier : Carrier) :
    (s.leave stack carrier).cells.length = s.cells.length := by
  cases carrier with
  | own _ => rfl
  | shared cell => exact List.length_set

theorem names_leave (s : Session) (stack : Stack) (carrier : Carrier) :
    (s.leave stack carrier).names = s.names := by cases carrier <;> rfl

theorem scans_leave (s : Session) (stack : Stack) (carrier : Carrier) :
    (s.leave stack carrier).scans = s.scans := by cases carrier <;> rfl

theorem cell_leave (s : Session) (stack : Stack) {cell : Nat} (h : cell < s.cells.length)
    (other : Nat) :
    (s.leave stack (.shared cell)).cell other = if other = cell then stack else s.cell other := by
  show ((s.cells.set cell stack)[other]?).getD [] = _
  rw [List.getElem?_set]
  by_cases hother : other = cell
  · rw [if_pos hother.symm, if_pos hother, if_pos h]
    rfl
  · rw [if_neg (Ne.symm hother), if_neg hother]
    rfl

/-- **A scan finds again what it left.** -/
theorem carried_leave (s : Session) (stack : Stack) {carrier : Carrier}
    (h : carrier.Within s.cells.length) :
    (s.leave stack carrier).carried (carrier.holding stack) = stack := by
  cases carrier with
  | own _ => rfl
  | shared cell => exact (cell_leave s stack h cell).trans (if_pos rfl)

theorem note_eq (s : Session) (events : List Event) :
    s.note events = { s with profiles := (s.note events).profiles } := by
  unfold note
  cases s.profiles <;> rfl

/-! ### Every command keeps the cells -/

theorem Sound.of_eq (h : s.Sound) (hcells : t.cells.length = s.cells.length)
    (hnames : t.names = s.names) (hscans : t.scans = s.scans) : t.Sound := by
  obtain ⟨hlt, hinj, hwithin⟩ := h
  constructor
  · rwa [hnames, hcells]
  · rwa [hnames]
  · rwa [hscans, hcells]

theorem Sound.newStack (h : s.Sound) (name : Text) (stack : Stack) :
    (s.newStack name stack).Sound := by
  have hlen : (s.newStack name stack).cells.length = s.cells.length + 1 := List.length_append
  have hget : ∀ other, (s.newStack name stack).names.get? other =
      if other = name then some s.cells.length else s.names.get? other :=
    fun other => Registry.get?_put name other s.cells.length s.names
  refine ⟨?_, ?_, ?_⟩
  · intro other cell hcell
    rw [hget] at hcell
    rw [hlen]
    split at hcell
    · cases hcell
      exact Nat.lt_succ_self _
    · exact Nat.lt_succ_of_lt (h.names_lt other cell hcell)
  · -- the new cell is behind all others
    intro a b cell ha hb
    rw [hget] at ha hb
    split at ha
    · cases ha
      split at hb
      · rw [‹a = name›, ‹b = name›]
      · exact absurd (h.names_lt b _ hb) (Nat.lt_irrefl _)
    · split at hb
      · cases hb
        exact absurd (h.names_lt a _ ha) (Nat.lt_irrefl _)
      · exact h.names_inj a b cell ha hb
  · intro other running hrunning
    have hwithin := h.scans_within other running hrunning
    cases hcarrier : running.carrier with
    | own _ => exact trivial
    | shared cell =>
      rw [hcarrier] at hwithin
      rw [hlen]
      exact Nat.lt_succ_of_lt hwithin

theorem Sound.putScan (h : s.Sound) (name : Text) {scan : OpenScan}
    (hscan : scan.carrier.Within s.cells.length) : (s.putScan name scan).Sound := by
  refine ⟨h.names_lt, h.names_inj, ?_⟩
  intro other running hrunning
  have hput : (s.putScan name scan).scans.get? other = _ :=
    Registry.get?_put name other scan s.scans
  rw [hput] at hrunning
  split at hrunning
  · cases hrunning
    exact hscan
  · exact h.scans_within other running hrunning

theorem Sound.leave (h : s.Sound) (stack : Stack) (carrier : Carrier) :
    (s.leave stack carrier).Sound :=
  h.of_eq (length_cells_leave s stack carrier) (names_leave s stack carrier)
    (scans_leave s stack carrier)

theorem Sound.report (h : s.Sound) (reply : Reply) (events : List Event) :
    (s.report reply events).session.Sound := by
  unfold Session.report note
  split
  · exact h
  · exact h.of_eq rfl rfl rfl

theorem Sound.configure (hs : s.Sound) (ht : t.Sound) (given : Setting) :
    (s.configure t given).session.Sound := by
  unfold Session.configure
  split
  · exact ht.of_eq rfl rfl rfl
  · exact hs

theorem Sound.pull (h : s.Sound) {name : Text} {running : OpenScan}
    (hrunning : s.scans.get? name = some running) (count : Nat) :
    (s.pull name count running).session.Sound := by
  have hwithin := h.scans_within name running hrunning
  unfold Session.pull
  refine Sound.report (Sound.putScan (h.leave _ _) name ?_) _ _
  rw [length_cells_leave]
  cases hcarrier : running.carrier with
  | own _ => exact trivial
  | shared cell =>
    rw [hcarrier] at hwithin
    exact hwithin

/-- **Every command keeps the cells.** -/
theorem Sound.step (h : s.Sound) (command : Command) : (s.step command).session.Sound := by
  cases command with
  | setConfig given => exact h.configure h given
  | enterConfig given => exact h.configure (t := s.save) (h.of_eq rfl rfl rfl) given
  | exitConfig =>
    show (s.exitConfig).session.Sound
    unfold exitConfig
    split
    · exact h
    · exact h.of_eq rfl rfl rfl
  | exitProfile =>
    show (s.exitProfile).session.Sound
    unfold exitProfile
    split
    · exact h
    · exact h.of_eq rfl rfl rfl
  | record chars tokens =>
    show (s.record chars tokens).Sound
    unfold record
    split
    · exact h
    · exact h.of_eq rfl rfl rfl
  | newStack name stack => exact h.newStack name stack
  | copyStack source target =>
    exact withCell_session (P := Sound) h fun cell _ => h.newStack target _
  | showStack name => exact withCell_session (P := Sound) h fun _ _ => h
  | sameStacks a b =>
    exact withCell_session (P := Sound) h fun _ _ => withCell_session (P := Sound) h fun _ _ => h
  | run job =>
    exact withCarrier_session (P := Sound) h fun carrier _ => (h.leave _ carrier).report _ _
  | openScan name job =>
    exact withCarrier_session (P := Sound) h fun carrier hcarrier =>
      h.putScan name (hcarrier.within h)
  | pull name count =>
    rw [Session.step]
    split
    · exact h
    · exact withScan_session (P := Sound) h fun running hrunning => h.pull hrunning count
  | closeScan name =>
    exact withScan_session (P := Sound) h fun running hrunning =>
      h.putScan name (h.scans_within name running hrunning)
  | update lines first =>
    show (s.update lines first).session.Sound
    unfold Session.update
    split
    · exact h
    · let updated := (s.highlighter.update s.config lines first).highlighter
      exact Sound.report (s := { s with highlighter := updated }) (h.of_eq rfl rfl rfl) _ _
  | showTokens number => exact withRow_session (P := Sound) h fun _ => h
  | showRowStack number saveAs =>
    refine withRow_session (P := Sound) h fun row => ?_
    cases saveAs with
    | none => exact h
    | some name => exact h.newStack name _
  | resetConfig | enterProfile | newHighlighter _ _ => exact h.of_eq rfl rfl rfl
  | showConfig | showProfile | showAllTokens | showRowStacks | showLines | countLines => exact h

/-- **In every session that a host can get to, the cells are there.** -/
theorem sound_after (commands : List Command) : (({} : Session).after commands).Sound :=
  after_induction sound_new fun _ command _ h => h.step command

end Session

end ChipHighlight
