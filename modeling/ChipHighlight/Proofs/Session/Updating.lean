import ChipHighlight.Proofs.Highlighter.Rejected
import ChipHighlight.Proofs.Profile.Tally
import ChipHighlight.Proofs.Session.Effects
import ChipHighlight.Proofs.Session.Highlighting

/-!
# Updates of any kind

`Updating mode s last` says that in the session `s` a highlighter for `mode` was made and
then came any commands of the host but for another highlighter.  Its updates may be wrong
about where the documents differ, and then rows that are kept are out of date.  `last` is
what the last update handed over.

Of all that a highlighter keeps, three things never go out of date (`Recalls`): which lines
it has, that there is one row for each of them, and whether a configuration is the one of
the last update.  That is enough for another configuration, under which nothing is kept:
the session is left as if the highlighter had been made just before
(`Updating.update_after_change`).
-/

namespace ChipHighlight

/-- **A session in which a document was updated in any way**, and what was handed over
last. -/
inductive Updating (mode : Mode) : Session → Option Handed → Prop
  | begin (s : Session) : Updating mode (s.step (.newHighlighter mode none)).session none
  | other {s : Session} {last : Option Handed} (command : Except CommandFault Command)
      (h : ∀ c, command = .ok c → c.reachesHighlighter = false) :
      Updating mode s last → Updating mode (s.attempt command).session last
  | update {s : Session} {last : Option Handed} (lines : List Text) (first : Int) :
      Updating mode s last →
      Updating mode (s.step (.update lines first)).session (some ⟨s.config, lines⟩)

/-- Whether what was handed over last is still kept under a configuration. -/
def Handed.isKept (config : Config) (last : Option Handed) : Bool :=
  last.any fun past => config.same past.config

/-! ### What never goes out of date -/

namespace Highlighter

variable {h : Highlighter} {mode : Mode} {last : Option Handed} {config : Config}

/-- **What a highlighter keeps right**, whatever was said about the edits. -/
structure Recalls (h : Highlighter) (mode : Mode) (last : Option Handed) : Prop where
  mode_eq : h.mode = mode
  wellFormed : h.WellFormed
  lines_eq : h.lines = (last.map Handed.lines).getD []
  isCurrent_eq : ∀ config, h.isCurrent config = Handed.isKept config last

theorem recalls_new (mode : Mode) : (new mode).Recalls mode none where
  mode_eq := rfl
  wellFormed := wellFormed_new mode
  lines_eq := rfl
  isCurrent_eq := fun _ => rfl

theorem Recalls.update (hr : h.Recalls mode last) (config : Config) (lines : List Text)
    (first : Int) :
    (h.update config lines first).highlighter.Recalls mode (some ⟨config, lines⟩) where
  mode_eq := (mode_update h config lines first).trans hr.mode_eq
  wellFormed := hr.wellFormed.update config lines first
  lines_eq := rfl
  isCurrent_eq := fun other => by
    -- the configuration that is kept may be an older one, but it equals the active one
    obtain ⟨kept, hkept, hsame⟩ := exists_config_refresh h config
    rw [isCurrent, config_update, hkept]
    exact Config.same_congr_right (Config.same_symm hsame) other

/-! ### Another configuration -/

/-- **Under another configuration** a highlighter is updated as a new one is, and every line
is read. -/
theorem update_of_not_current (hc : h.isCurrent config = false) (lines : List Text)
    (first other : Int) :
    (h.update config lines first).highlighter =
        ((new h.mode).update config lines other).highlighter ∧
      (h.update config lines first).scanned = lines.length ∧
      ∀ profile : Profile, profile.follow (h.update config lines first).events =
        profile.follow ((new h.mode).update config lines other).events := by
  have hnew : (new h.mode).isCurrent config = false := rfl
  have hrefresh : h.refresh config = (new h.mode).refresh config := by
    rw [refresh_of_not_current hc, refresh_of_not_current hnew]
    rfl
  have hstart := startOf_refresh_of_not_current hc first lines
  have hother := startOf_refresh_of_not_current hnew other lines
  refine ⟨?_, ?_, fun profile => ?_⟩
  · unfold update
    dsimp only
    rw [hstart, hother, hrefresh]
  · rw [scanned_update, hstart, rescanFrom_zero, refresh_of_not_current hc]
    rcases rescan_cases h.mode config.rules [] (sharedEnd [] lines) (lines.length - 0) 1
        h.mode.start lines with ⟨-, hall⟩ | ⟨n, kept, -, -, -, hsome, -⟩
    · exact congrArg Rescan.scanned hall
    · rw [keepsBehind_nil] at hsome
      cases hsome
  · rw [Profile.follow_eq_plus, Profile.follow_eq_plus, tallies_update, tallies_update, hstart,
      hother, hrefresh]

end Highlighter

/-! ### Sessions -/

/-- **Updates of any kind keep it right.** -/
theorem Updating.recalls {mode : Mode} {s : Session} {last : Option Handed}
    (h : Updating mode s last) : s.highlighter.Recalls mode last ∧ s.startFault = none := by
  induction h with
  | begin s => exact ⟨Highlighter.recalls_new mode, rfl⟩
  | other command hother _ ih =>
    obtain ⟨hh, hs⟩ := Session.sameHighlighter_attempt hother
    rw [hh, hs]
    exact ih
  | update lines first _ ih =>
    obtain ⟨hh, hs⟩ := Session.session_update _ lines first ih.2
    rw [hh]
    exact ⟨ih.1.update _ lines first, hs⟩

/-- **Another configuration makes harmless whatever was kept.**  If the active configuration
is not equal to that of the last update, an update reads every line, and leaves the session
as it is left when a highlighter for the mode is made first: with the same lines, tokens and
stacks, and the same counted in the profiles. -/
theorem Updating.update_after_change {mode : Mode} {s : Session} {last : Option Handed}
    (h : Updating mode s last) (hchange : ∀ past ∈ last, s.config.same past.config = false)
    (lines : List Text) (first other : Int) :
    let fresh := (s.step (.newHighlighter mode none)).session
    (s.step (.update lines first)).reply = .ok (.count lines.length) ∧
      (s.step (.update lines first)).session = (fresh.step (.update lines other)).session := by
  intro fresh
  obtain ⟨hr, hfault⟩ := h.recalls
  have hc : s.highlighter.isCurrent s.config = false := by
    rw [hr.isCurrent_eq, Handed.isKept, Option.any_eq_false]
    exact hchange
  obtain ⟨hh, hscanned, hfollow⟩ :=
    Highlighter.update_of_not_current hc lines first other
  rw [hr.mode_eq] at hh hfollow
  have hfresh : fresh.step (.update lines other) = _ := Session.step_update rfl lines other
  rw [Session.step_update hfault, hfresh]
  refine ⟨congrArg (fun n => Except.ok (Reply.count n)) hscanned, ?_⟩
  have hsession : { s with highlighter := (s.highlighter.update s.config lines first).highlighter } =
      { fresh with
        highlighter := ((Highlighter.new mode).update s.config lines other).highlighter } := by
    rw [hh, hfault]
    rfl
  show Session.note _ _ = Session.note _ _
  rw [hsession]
  exact Session.note_congr _ hfollow

/-- A line is skipped by an update that starts behind it, so its row is out of date.  Then
the configuration goes there and back, with an update in between. -/
theorem update_after_return :
    let document := ["c4 'a".toList, "b' e4".toList]
    let edited := ["c4 a".toList, "b' e4".toList]
    let comments : Setting := .object [(Config.stringStyleField, .text "comment".toList)]
    let s := ((({} : Session).step (.newHighlighter .blip none)).session.step
      (.update document 0)).session
    let stale := (s.step (.update edited 1)).session
    let changed := ((stale.step (.setConfig comments)).session.step (.update document 1)).session
    let back := (changed.step .resetConfig).session
    let fresh := (back.step (.newHighlighter .blip none)).session
    Updating .blip back (some ⟨changed.config, document⟩) ∧
      back.config.same changed.config = false ∧
      (back.step (.update edited 1)).reply = .ok (.count 2) ∧
      (back.step (.update edited 1)).session = (fresh.step (.update edited 0)).session := by
  intro document edited comments s stale changed back fresh
  have h : Updating .blip back (some ⟨changed.config, document⟩) := by
    refine .other (.ok .resetConfig) ?_ (.update _ _ (.other (.ok (.setConfig _)) ?_
      (.update _ _ (.update _ _ (.begin _)))))
    · rintro c ⟨⟩
      rfl
    · rintro c ⟨⟩
      rfl
  have hchange : back.config.same changed.config = false := by decide +kernel
  have hall : ∀ past ∈ some (Handed.mk changed.config document),
      back.config.same past.config = false := by
    rintro past ⟨⟩
    exact hchange
  obtain ⟨hreply, hsession⟩ := h.update_after_change hall edited 1 0
  exact ⟨h, hchange, hreply, hsession⟩

end ChipHighlight
