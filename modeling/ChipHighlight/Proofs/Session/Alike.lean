import ChipHighlight.Proofs.Config.Equality
import ChipHighlight.Proofs.Highlighter.Rejected
import ChipHighlight.Proofs.Session.Editing
import Mathlib.Data.List.Forall2

/-!
# Sessions under equal configurations

A configuration is compared by value, so a highlighter may keep what it read under one
that was equal but not identical to the active one: the whole number one for a yes, the
words in another order or twice, further fields that are ignored.

Two sessions are `Alike` if one is the other with configurations in place of its own that
equal them, the active one, those to restore, and the one that the highlighter keeps.  A
configuration is asked for two things only: which rules it chooses, and whether it equals
another one, and equal ones answer both alike (`Config.rules_of_same`,
`Config.same_congr_right`).  So alike sessions stay alike whatever a host does, also when
it sets one description of a configuration in the one and an equal one in the other
(`Session.Alike.step`), and all that it is told is the same (`Session.Alike.steps`).
-/

namespace ChipHighlight

/-! ### Highlighters -/

namespace Highlighter

variable {h k : Highlighter} {c d : Config}

/-- **Highlighters that differ in the configuration they keep**, but not in what equals it. -/
inductive Alike (h : Highlighter) : Highlighter → Prop
  | mk {kept : Option Config}
      (same : ∀ config, h.isCurrent config = isCurrent { h with config := kept } config) :
      Alike h { h with config := kept }

theorem Alike.refl (h : Highlighter) : h.Alike h := .mk fun _ => rfl

theorem Alike.isCurrent (hk : h.Alike k) (hcd : c.same d = true) :
    h.isCurrent c = k.isCurrent d := by
  obtain ⟨same⟩ := hk
  rw [same, Highlighter.isCurrent, Highlighter.isCurrent]
  split
  · exact Config.same_congr_left hcd _
  · rfl

theorem Alike.refresh (hk : h.Alike k) (hcd : c.same d = true) :
    (h.refresh c).Alike (k.refresh d) := by
  have hcurrent := hk.isCurrent hcd
  cases hc : h.isCurrent c with
  | true =>
    rw [refresh_of_current hc, refresh_of_current (hcurrent ▸ hc)]
    exact hk
  | false =>
    rw [refresh_of_not_current hc, refresh_of_not_current (hcurrent ▸ hc)]
    obtain ⟨-⟩ := hk
    exact .mk fun config => Config.same_congr_right hcd config

/-- **Updates under equal configurations come to the same.** -/
theorem Alike.update (hk : h.Alike k) (hcd : c.same d = true) (lines : List Text) (first : Int) :
    (h.update c lines first).highlighter.Alike (k.update d lines first).highlighter ∧
      (h.update c lines first).scanned = (k.update d lines first).scanned ∧
      (h.update c lines first).events = (k.update d lines first).events := by
  have hevents : h.refreshEvents c = k.refreshEvents d := by
    rw [refreshEvents, refreshEvents, hk.isCurrent hcd]
    obtain ⟨-⟩ := hk
    rfl
  have hrefresh := hk.refresh hcd
  unfold Highlighter.update
  rw [hevents, Config.rules_of_same hcd]
  generalize h.refresh c = h' at hrefresh ⊢
  generalize k.refresh d = k' at hrefresh ⊢
  obtain ⟨same⟩ := hrefresh
  exact ⟨.mk same, rfl, rfl⟩

end Highlighter

/-! ### Sessions and outcomes -/

/-- **Sessions that differ in their configurations**, each of which equals the one in its
place. -/
inductive Session.Alike (s : Session) : Session → Prop
  | mk {config : Config} {saved : List Config} {highlighter : Highlighter}
      (config_same : s.config.same config = true)
      (saved_same : List.Forall₂ (fun c d => Config.same c d = true) s.saved saved)
      (highlighter_alike : s.highlighter.Alike highlighter) :
      Alike s { s with config := config, saved := saved, highlighter := highlighter }

/-- Replies that differ in nothing but a configuration that is shown. -/
inductive Reply.Alike : Except CommandFault Reply → Except CommandFault Reply → Prop
  | same (reply : Except CommandFault Reply) : Alike reply reply
  | config {c d : Config} (h : c.same d = true) : Alike (.ok (.config c)) (.ok (.config d))

theorem Reply.Alike.eq_of_ne {x y : Except CommandFault Reply} (h : Reply.Alike x y)
    (hx : ∀ config, x ≠ .ok (.config config)) : x = y := by
  cases h with
  | same => rfl
  | config _ => exact absurd rfl (hx _)

structure Outcome.Alike (x y : Outcome) : Prop where
  session : x.session.Alike y.session
  reply : Reply.Alike x.reply y.reply
  events_eq : x.events = y.events

/-- What reading a configuration comes to, for descriptions of equal ones. -/
inductive Config.ReadAlike : Except Fault Config → Except Fault Config → Prop
  | error (fault : Fault) : ReadAlike (.error fault) (.error fault)
  | ok {c d : Config} (h : c.same d = true) : ReadAlike (.ok c) (.ok d)

theorem Config.ReadAlike.refl (result : Except Fault Config) : ReadAlike result result := by
  cases result with
  | error fault => exact .error fault
  | ok c => exact .ok c.same_refl

/-- Commands of two hosts of which the one sets `a` where the other sets `b`, at times. -/
inductive Command.Exchanged (a b : Setting) : Command → Command → Prop
  | kept (command : Command) : Exchanged a b command command
  | set : Exchanged a b (.setConfig a) (.setConfig b)
  | enter : Exchanged a b (.enterConfig a) (.enterConfig b)

/-- The same, of commands that may be stated wrongly. -/
inductive Command.StatedExchanged (a b : Setting) :
    Except CommandFault Command → Except CommandFault Command → Prop
  | error (fault : CommandFault) : StatedExchanged a b (.error fault) (.error fault)
  | ok {x y : Command} (h : Exchanged a b x y) : StatedExchanged a b (.ok x) (.ok y)

namespace Session

variable {s t : Session}

theorem Alike.refl (s : Session) : s.Alike s :=
  .mk s.config.same_refl (List.forall₂_same.mpr fun c _ => c.same_refl) (.refl s.highlighter)

theorem Alike.answer (h : s.Alike t) (reply : Reply) : (s.answer reply).Alike (t.answer reply) :=
  ⟨h, .same _, rfl⟩

theorem Alike.fail (h : s.Alike t) (fault : CommandFault) : (s.fail fault).Alike (t.fail fault) :=
  ⟨h, .same _, rfl⟩

theorem Alike.activate (h : s.Alike t) {c d : Config} (hcd : c.same d = true) :
    (s.activate c).Alike (t.activate d) := by
  obtain ⟨-, hsaved, hhighlighter⟩ := h
  exact .mk hcd hsaved hhighlighter

theorem Alike.profiles_eq (h : s.Alike t) : s.profiles = t.profiles := by
  obtain ⟨-, -, -⟩ := h
  rfl

theorem Alike.withProfiles (h : s.Alike t) (profiles : List Profile) :
    Session.Alike { s with profiles := profiles } { t with profiles := profiles } := by
  obtain ⟨hconfig, hsaved, hhighlighter⟩ := h
  exact .mk hconfig hsaved hhighlighter

theorem Alike.withHighlighter (h : s.Alike t) {u v : Highlighter} (huv : u.Alike v) :
    Session.Alike { s with highlighter := u } { t with highlighter := v } := by
  obtain ⟨hconfig, hsaved, -⟩ := h
  exact .mk hconfig hsaved huv

theorem Alike.note (h : s.Alike t) (events : List Event) :
    (s.note events).Alike (t.note events) := by
  unfold Session.note
  rw [← h.profiles_eq]
  split
  · exact h
  · exact h.withProfiles _

theorem Alike.report (h : s.Alike t) (reply : Reply) (events : List Event) :
    (s.report reply events).Alike (t.report reply events) :=
  ⟨h.note events, .same _, rfl⟩

theorem Alike.newStack (h : s.Alike t) (name : Text) (stack : Stack) :
    (s.newStack name stack).Alike (t.newStack name stack) := by
  obtain ⟨hconfig, hsaved, hhighlighter⟩ := h
  exact .mk hconfig hsaved hhighlighter

theorem Alike.putScan (h : s.Alike t) (name : Text) (scan : OpenScan) :
    (s.putScan name scan).Alike (t.putScan name scan) := by
  obtain ⟨hconfig, hsaved, hhighlighter⟩ := h
  exact .mk hconfig hsaved hhighlighter

theorem Alike.leave (h : s.Alike t) (stack : Stack) (carrier : Carrier) :
    (s.leave stack carrier).Alike (t.leave stack carrier) := by
  obtain ⟨hconfig, hsaved, hhighlighter⟩ := h
  cases carrier with
  | own _ => exact .mk hconfig hsaved hhighlighter
  | shared cell => exact .mk hconfig hsaved hhighlighter

theorem Alike.cells_eq (h : s.Alike t) : s.cells = t.cells := by
  obtain ⟨-, -, -⟩ := h
  rfl

theorem Alike.cell_eq (h : s.Alike t) (cell : Nat) : s.cell cell = t.cell cell := by
  rw [Session.cell, Session.cell, h.cells_eq]

theorem Alike.carried_eq (h : s.Alike t) (carrier : Carrier) :
    s.carried carrier = t.carried carrier := by
  cases carrier with
  | own stack => rfl
  | shared cell => exact h.cell_eq cell

theorem Alike.rules_eq (h : s.Alike t) : s.config.rules = t.config.rules := by
  obtain ⟨hconfig, -, -⟩ := h
  exact Config.rules_of_same hconfig

/-! ### Commands that look something up -/

theorem Alike.withCell (h : s.Alike t) (name : Text) {go go' : Nat → Outcome}
    (found : ∀ cell, (go cell).Alike (go' cell)) :
    (s.withCell name go).Alike (t.withCell name go') := by
  obtain ⟨hconfig, hsaved, hhighlighter⟩ := h
  unfold Session.withCell
  dsimp only
  split
  · exact found _
  · exact Alike.fail (.mk hconfig hsaved hhighlighter) _

theorem Alike.withCarrier (h : s.Alike t) (job : Job) {go go' : Carrier → Outcome}
    (found : ∀ carrier, (go carrier).Alike (go' carrier)) :
    (s.withCarrier job go).Alike (t.withCarrier job go') := by
  unfold Session.withCarrier
  split
  · exact found _
  · exact h.withCell _ fun cell => found (.shared cell)

theorem Alike.withScan (h : s.Alike t) (name : Text) {go go' : OpenScan → Outcome}
    (found : ∀ running, (go running).Alike (go' running)) :
    (s.withScan name go).Alike (t.withScan name go') := by
  obtain ⟨hconfig, hsaved, hhighlighter⟩ := h
  unfold Session.withScan
  dsimp only
  split
  · exact found _
  · exact Alike.fail (.mk hconfig hsaved hhighlighter) _

theorem Alike.withRow (h : s.Alike t) (number : Int) {go go' : Row → Outcome}
    (found : ∀ row, (go row).Alike (go' row)) :
    (s.withRow number go).Alike (t.withRow number go') := by
  have hrow : s.highlighter.row? number = t.highlighter.row? number := by
    obtain ⟨-, -, ⟨-⟩⟩ := h
    rfl
  unfold Session.withRow
  rw [hrow]
  split
  · exact found _
  · exact h.fail _

/-! ### Commands -/

theorem Alike.configure (h : s.Alike t) {s' t' : Session} (h' : s'.Alike t') {a b : Setting}
    (hread : Config.ReadAlike (Config.ofSetting a) (Config.ofSetting b)) :
    (s.configure s' a).Alike (t.configure t' b) := by
  unfold Session.configure
  generalize Config.ofSetting a = x at hread ⊢
  generalize Config.ofSetting b = y at hread ⊢
  cases hread with
  | error fault => exact h.fail (.config fault)
  | ok hsame => exact (h'.activate hsame).answer .done

theorem Alike.save (h : s.Alike t) : s.save.Alike t.save := by
  obtain ⟨hconfig, hsaved, hhighlighter⟩ := h
  exact .mk hconfig (.cons hconfig hsaved) hhighlighter

theorem Alike.exitConfig (h : s.Alike t) : s.exitConfig.Alike t.exitConfig := by
  have hsaved : List.Forall₂ (fun c d => Config.same c d = true) s.saved t.saved := by
    obtain ⟨-, hsaved, -⟩ := h
    exact hsaved
  unfold Session.exitConfig
  generalize s.saved = cs at hsaved ⊢
  generalize t.saved = ds at hsaved ⊢
  cases hsaved with
  | nil => exact h.fail .nothingEntered
  | @cons c d cs ds hsame hrest =>
    have hleft : Session.Alike { s with config := c, saved := cs }
        { t with config := d, saved := ds } := by
      obtain ⟨-, -, hhighlighter⟩ := h
      exact .mk hsame hrest hhighlighter
    exact hleft.answer .done

theorem Alike.exitProfile (h : s.Alike t) : s.exitProfile.Alike t.exitProfile := by
  unfold Session.exitProfile
  rw [← h.profiles_eq]
  split
  · exact h.fail .nothingEntered
  · exact (h.withProfiles _).answer _

theorem Alike.record (h : s.Alike t) (chars tokens : Int) :
    (s.record chars tokens).Alike (t.record chars tokens) := by
  unfold Session.record
  rw [← h.profiles_eq]
  split
  · exact h
  · exact h.withProfiles _

theorem Alike.run (h : s.Alike t) (job : Job) (carrier : Carrier) :
    (s.run job carrier).Alike (t.run job carrier) := by
  unfold Session.run
  rw [h.rules_eq, h.carried_eq]
  exact (h.leave _ _).report _ _

theorem Alike.pull (h : s.Alike t) (name : Text) (count : Nat) (running : OpenScan) :
    (s.pull name count running).Alike (t.pull name count running) := by
  unfold Session.pull
  rw [h.rules_eq, h.carried_eq]
  exact ((h.leave _ _).putScan _ _).report _ _

theorem Alike.update (h : s.Alike t) (lines : List Text) (first : Int) :
    (s.update lines first).Alike (t.update lines first) := by
  have hself := h
  obtain ⟨hconfig, hsaved, hhighlighter⟩ := h
  unfold Session.update
  dsimp only
  split
  · obtain ⟨-⟩ := hhighlighter
    exact ⟨hself, .same _, rfl⟩
  · obtain ⟨hupdated, hscanned, hevents⟩ := hhighlighter.update hconfig lines first
    rw [← hscanned, ← hevents]
    exact (hself.withHighlighter hupdated).report _ _

/-- **Every command keeps sessions alike**, and comes to the same in both. -/
theorem Alike.step (h : s.Alike t) {a b : Setting}
    (hread : Config.ReadAlike (Config.ofSetting a) (Config.ofSetting b)) {x y : Command}
    (hxy : Command.Exchanged a b x y) : (s.step x).Alike (t.step y) := by
  cases hxy with
  | set => exact h.configure h hread
  | enter => exact h.configure h.save hread
  | kept =>
    cases x with
    | setConfig given => exact h.configure h (.refl _)
    | enterConfig given => exact h.configure h.save (.refl _)
    | resetConfig => exact (h.activate (Config.same_refl .default)).answer .done
    | exitConfig => exact h.exitConfig
    | showConfig =>
      refine ⟨h, ?_, rfl⟩
      obtain ⟨hconfig, -, -⟩ := h
      exact .config hconfig
    | enterProfile =>
      rw [Session.step, Session.step, ← h.profiles_eq]
      exact (h.withProfiles _).answer .done
    | exitProfile => exact h.exitProfile
    | record chars tokens => exact (h.record chars tokens).answer .done
    | newStack name stack => exact (h.newStack name stack).answer .done
    | copyStack source target =>
      refine h.withCell source fun cell => ?_
      rw [h.cell_eq]
      exact (h.newStack target _).answer .done
    | showStack name =>
      refine h.withCell name fun cell => ?_
      rw [h.cell_eq]
      exact h.answer _
    | sameStacks m n =>
      refine h.withCell m fun cell => h.withCell n fun other => ?_
      rw [h.cell_eq, h.cell_eq]
      exact h.answer _
    | run job => exact h.withCarrier job fun carrier => h.run job carrier
    | openScan name job =>
      exact h.withCarrier job fun carrier => (h.putScan name _).answer .done
    | pull name count =>
      rw [Session.step, Session.step]
      split
      · exact h.answer _
      · exact h.withScan name fun running => h.pull name count running
    | closeScan name => exact h.withScan name fun running => (h.putScan name _).answer .done
    | newHighlighter mode fault =>
      have hnew : Session.Alike { s with highlighter := .new mode, startFault := fault }
          { t with highlighter := .new mode, startFault := fault } := by
        obtain ⟨hconfig, hsaved, -⟩ := h
        exact .mk hconfig hsaved (.refl _)
      exact hnew.answer .done
    | update lines first => exact h.update lines first
    | showTokens number => exact h.withRow number fun row => h.answer _
    | showRowStack number saveAs =>
      refine h.withRow number fun row => ?_
      cases saveAs with
      | none => exact h.answer _
      | some name => exact (h.newStack name _).answer _
    | showProfile | showAllTokens | showRowStacks | showLines | countLines =>
      refine ⟨h, ?_, rfl⟩
      obtain ⟨-, -, ⟨-⟩⟩ := h
      exact .same _

theorem Alike.attempt (h : s.Alike t) {a b : Setting}
    (hread : Config.ReadAlike (Config.ofSetting a) (Config.ofSetting b))
    {x y : Except CommandFault Command} (hxy : Command.StatedExchanged a b x y) :
    (s.attempt x).Alike (t.attempt y) := by
  cases hxy with
  | error fault => exact h.fail fault
  | ok hxy => exact h.step hread hxy

/-- **A whole run comes to the same in alike sessions.** -/
theorem Alike.steps (h : s.Alike t) {a b : Setting}
    (hread : Config.ReadAlike (Config.ofSetting a) (Config.ofSetting b))
    {xs ys : List (Except CommandFault Command)}
    (hxy : List.Forall₂ (Command.StatedExchanged a b) xs ys) :
    List.Forall₂ Outcome.Alike (s.steps xs) (t.steps ys) := by
  induction hxy generalizing s t with
  | nil => exact .nil
  | cons hhead _ ih =>
    have hstep := h.attempt hread hhead
    exact .cons hstep (ih hstep.session)

theorem reply_run (s : Session) (job : Job) (config : Config) :
    (s.step (.run job)).reply ≠ .ok (.config config) := by
  intro h
  rw [Session.step, Session.withCarrier] at h
  split at h
  · cases h
  · rw [Session.withCell] at h
    split at h
    · cases h
    · cases h

end Session

/-! ### Equality as a key -/

/-- **Equality of configurations is sound as the key of what is kept.**  Whatever two
documents describe equal configurations, nothing that is read under one of them differs from
what is read under the other: not a line or a document at once, from whatever is open in
front of it, with what is counted in the profiles; and not a whole run of a host, with scans
that are interrupted and updates of the highlighter, in which one of them is set where the
other was set.  So a highlighter that keeps what it read under the one is right to go on from
it under the other. -/
theorem Config.interchangeable {a b : List (Text × Setting)} {c d : Config}
    (ha : Config.ofSetting (.object a) = .ok c) (hb : Config.ofSetting (.object b) = .ok d)
    (hcd : c.same d = true) :
    (∀ (mode : Mode) (keepGaps : Bool) (number : Int) (stack : Stack) (lines : List Text),
      mode.transcribe c.rules keepGaps number stack lines =
        mode.transcribe d.rules keepGaps number stack lines) ∧
      (∀ (s : Session) (job : Job),
        let x := (s.step (.setConfig (.object a))).session.step (.run job)
        let y := (s.step (.setConfig (.object b))).session.step (.run job)
        x.reply = y.reply ∧ x.events = y.events ∧ x.session.cells = y.session.cells ∧
          x.session.profiles = y.session.profiles) ∧
      (∀ (s : Session) (xs ys : List (Except CommandFault Command)),
        List.Forall₂ (Command.StatedExchanged (.object a) (.object b)) xs ys →
          List.Forall₂ Outcome.Alike (s.steps xs) (s.steps ys)) ∧
      ∀ (h : Highlighter), h.isCurrent c = true → ∀ (lines : List Text) (first : Int),
        h.refresh d = h ∧ h.update d lines first = h.update c lines first ∧
          (h.UpToDate → h.KeepsFront d lines first →
            (h.update d lines first).highlighter.rows =
              ((Highlighter.new h.mode).update d lines 0).highlighter.rows) := by
  have hread : Config.ReadAlike (Config.ofSetting (.object a)) (Config.ofSetting (.object b)) := by
    rw [ha, hb]
    exact .ok hcd
  have hcurrent (h : Highlighter) : h.isCurrent c = h.isCurrent d :=
    (Highlighter.Alike.refl h).isCurrent hcd
  refine ⟨fun mode keepGaps number stack lines => ?_, fun s job => ?_, fun s xs ys hxy => ?_,
    fun h hc lines first => ⟨?_, ?_, fun hup hfront => ?_⟩⟩
  · rw [Config.rules_of_same hcd]
  · have hset := (Session.Alike.refl s).step hread .set
    obtain ⟨hsession, hreply, hevents⟩ := hset.session.step hread (.kept (.run job))
    refine ⟨?_, hevents, hsession.cells_eq, hsession.profiles_eq⟩
    exact hreply.eq_of_ne (Session.reply_run _ job)
  · exact (Session.Alike.refl s).steps hread hxy
  · exact Highlighter.refresh_of_current ((hcurrent h).symm.trans hc)
  · have hd : h.isCurrent d = true := (hcurrent h).symm.trans hc
    unfold Highlighter.update
    rw [Highlighter.refreshEvents, Highlighter.refreshEvents, hc, hd,
      Highlighter.refresh_of_current hc, Highlighter.refresh_of_current hd,
      Config.rules_of_same hcd]
  · rw [Highlighter.rows_update hup hfront, Highlighter.rows_update_new]

/-- A yes in two kinds, and words once as a list in which one comes twice, once as the names
of the fields of an object. -/
theorem Config.kept_under_equal_words :
    let a : List (Text × Setting) :=
      [(lenientSharpsField, .bool true),
        (extraKeywordsField, .list [.text "b".toList, .text "a".toList, .text "b".toList])]
    let b : List (Text × Setting) :=
      [("theme".toList, .null),
        (extraKeywordsField, .object [("a".toList, .int 1), ("b".toList, .null)]),
        (lenientSharpsField, .float (.ofDecimal false 1 0))]
    let words : WordSet := .ofList ["a".toList, "b".toList]
    let c : Config := { lenientSharps := .bool true, extraKeywords := words }
    let d : Config := { lenientSharps := .float (.ofDecimal false 1 0), extraKeywords := words }
    let h := ((Highlighter.new .blip).update c ["b#4 'a".toList, "b' a".toList] 0).highlighter
    let edited := ["e#4 'a".toList, "b' a".toList]
    ofSetting (.object a) = .ok c ∧ ofSetting (.object b) = .ok d ∧ c.same d = true ∧
      h.isCurrent c = true ∧ (h.update d edited 0).scanned = 1 ∧
      h.update d edited 0 = h.update c edited 0 := by
  intro a b words c d h edited
  have ha : ofSetting (.object a) = .ok c := rfl
  have hb : ofSetting (.object b) = .ok d := rfl
  have hcd : c.same d = true := by decide +kernel
  have hc : h.isCurrent c = true := by decide +kernel
  obtain ⟨-, hupdate, -⟩ := (interchangeable ha hb hcd).2.2.2 h hc edited 0
  exact ⟨ha, hb, hcd, hc, by decide +kernel, hupdate⟩

end ChipHighlight
