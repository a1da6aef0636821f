import ChipHighlight.Proofs.Calls.Basic
import Mathlib.Data.List.Forall2

/-!
# Scans as runs of calls

A scan that is asked for tokens makes calls until it comes to a token that is handed out,
and all of them under the configuration that is set when it is asked.  So whatever a scan
gives, asked again and again and each time under another configuration, is what a run of
calls finds (`exists_calls_of_asked`).

Two bookmarks need not be equal for the same calls to be made from them: a line that is
read to its end has no say in it, nor has the count of the tokens of a line.  `Leads` is
what can be told of bookmarks by calls.
-/

namespace ChipHighlight

/-- What a scan gives that is asked again and again for some tokens, each time under a
configuration. -/
def Scan.asked : List (Config × Nat) → Stack → Scan → List (List Token)
  | [], _, _ => []
  | (config, count) :: asks, stack, scan =>
    let batch := scan.pull config.rules count stack
    batch.tokens :: asked asks batch.stack batch.scan

namespace Bookmark

/-- **Calls that lead from one bookmark to another**, as far as further calls can tell. -/
def Leads (b : Bookmark) (made : List Call) (next : Bookmark) : Prop :=
  ∀ more, b.calls (made.map Call.config ++ more) = made ++ next.calls more

/-- Calls under one configuration that lead from one bookmark to another, and of whose
tokens the given ones are handed out. -/
def Gives (config : Config) (keepGaps : Bool) (b : Bookmark) (tokens : List Token)
    (next : Bookmark) : Prop :=
  ∃ made, (∀ call ∈ made, call.config = config) ∧
    (made.map Call.token).filter (keeps keepGaps) = tokens ∧ b.Leads made next

variable {b next last : Bookmark} {config : Config} {keepGaps : Bool} {call : Call}
  {stack : Stack} {line : OpenLine} {others : List OpenLine}

theorem Leads.refl (b : Bookmark) : b.Leads [] b := fun _ => rfl

theorem Leads.trans {made more : List Call} (h : b.Leads made next) (g : next.Leads more last) :
    b.Leads (made ++ more) last := by
  intro configs
  rw [List.map_append, List.append_assoc, h, g, List.append_assoc]

theorem leads_of_call? (h : b.call? config = some (call, next)) : b.Leads [call] next := by
  intro more
  rw [List.map_singleton, List.singleton_append, (makes_of_call? h).config_eq,
    calls_cons_of_some h, List.singleton_append]

theorem leads_of_rest_nil (h : line.rest = []) :
    (mk stack (line :: others)).Leads [] (mk stack others) := by
  have hleft : (mk stack (line :: others)).left = (mk stack others).left :=
    List.dropWhile_cons_of_pos (by rw [h]; rfl)
  have hcall : ∀ config, (mk stack (line :: others)).call? config =
      (mk stack others).call? config := by
    intro config
    unfold call?
    rw [hleft]
  intro more
  cases more with
  | nil => rfl
  | cons config more =>
    show (mk stack (line :: others)).calls (config :: more) = (mk stack others).calls (config :: more)
    rw [calls, calls, hcall]

theorem call?_of_rest (others : List OpenLine) (h : line.rest ≠ []) {reading : Reading}
    (hread : readNext config.rules stack line.rest = reading) :
    (mk stack (line :: others)).call? config =
      some (⟨config, line.number, line.offset, line.rest, stack, reading⟩,
        ⟨reading.stack, line.advance (line.rest.take reading.length)
          (line.rest.drop reading.length) :: others⟩) := by
  have hleft : (mk stack (line :: others)).left = line :: others :=
    List.dropWhile_cons_of_neg (by simpa using h)
  rw [call?, hleft, ← hread]

theorem leads_emit (stack : Stack) (line : OpenLine) (others : List OpenLine) :
    (mk stack (line :: others)).Leads [] (mk stack (line.emit :: others)) := by
  intro configs
  show (mk stack (line :: others)).calls configs = (mk stack (line.emit :: others)).calls configs
  induction configs generalizing stack line with
  | nil => rfl
  | cons config configs ih =>
    by_cases hrest : line.rest = []
    · have hemit : line.emit.rest = [] := hrest
      exact (leads_of_rest_nil hrest _).trans (leads_of_rest_nil hemit _).symm
    · have hemit : line.emit.rest ≠ [] := hrest
      let reading := readNext config.rules stack line.rest
      let further := line.advance (line.rest.take reading.length) (line.rest.drop reading.length)
      rw [calls_cons_of_some (call?_of_rest others hrest rfl),
        calls_cons_of_some (call?_of_rest others hemit rfl)]
      exact congrArg _ (ih reading.stack further)

theorem Gives.of_leads (h : b.Leads [] next) : b.Gives config keepGaps [] next :=
  ⟨[], List.forall_mem_nil _, rfl, h⟩

theorem Gives.trans {tokens more : List Token} (h : b.Gives config keepGaps tokens next)
    (g : next.Gives config keepGaps more last) : b.Gives config keepGaps (tokens ++ more) last := by
  obtain ⟨made, hconfig, htokens, hleads⟩ := h
  obtain ⟨made', hconfig', htokens', hleads'⟩ := g
  refine ⟨made ++ made', List.forall_mem_append.mpr ⟨hconfig, hconfig'⟩, ?_, hleads.trans hleads'⟩
  rw [List.map_append, List.filter_append, htokens, htokens']

theorem gives_of_call? (keepGaps : Bool) (h : b.call? config = some (call, next)) :
    b.Gives config keepGaps ([call.token].filter (keeps keepGaps)) next := by
  refine ⟨[call], ?_, rfl, leads_of_call? h⟩
  exact List.forall_mem_singleton.mpr (makes_of_call? h).config_eq

end Bookmark

open Bookmark (Gives Leads)

variable {config : Config} {keepGaps : Bool}

/-- **Going on in a line** makes calls up to the next token that is handed out, or up to the
end of the line. -/
theorem OpenLine.gives_next (config : Config) (keepGaps : Bool) (stack : Stack) (line : OpenLine)
    (others : List OpenLine) :
    (∃ token further following,
      line.next .blip config.rules keepGaps stack = .token token further following ∧
      Gives config keepGaps ⟨stack, line :: others⟩ [token] ⟨following, further :: others⟩) ∨
    ∃ final, line.next .blip config.rules keepGaps stack = .finished final ∧
      Gives config keepGaps ⟨stack, line :: others⟩ [] ⟨final, others⟩ := by
  have hstep : ∀ (stack : Stack) (line : OpenLine) (c : Char) (t : Text) (style : Option Style)
      (n : Nat) (following : Stack), line.rest = c :: t →
      Mode.blip.read config.rules stack line.before (c :: t) = ⟨style, n + 1, following⟩ →
      Gives config keepGaps ⟨stack, line :: others⟩
        ([Span.token line.number line.offset ⟨c :: t.take n, style, following⟩].filter
          (keeps keepGaps))
        ⟨following, line.advance (c :: t.take n) (t.drop n) :: others⟩ := by
    intro stack line c t style n following hrest hread
    have hcall := Bookmark.call?_of_rest others (by rw [hrest]; exact List.cons_ne_nil c t)
      ((congrArg _ hrest).trans hread)
    have hgives := Bookmark.gives_of_call? keepGaps hcall
    rw [hrest] at hgives
    exact hgives
  fun_induction OpenLine.next .blip config.rules keepGaps stack line with
  | case1 stack line hrest =>
    exact Or.inr ⟨stack, rfl, .of_leads (Bookmark.leads_of_rest_nil hrest)⟩
  | case2 stack line c t hrest style final hread =>
    have hpos := length_readNext_pos config.rules stack (List.cons_ne_nil c t)
    rw [show readNext config.rules stack (c :: t) = ⟨style, 0, final⟩ from hread] at hpos
    exact absurd hpos (Nat.lt_irrefl 0)
  | case3 stack line c t hrest style n following hread token hkeeps =>
    refine Or.inl ⟨token, _, following, rfl, ?_⟩
    have hgives := hstep stack line c t style n following hrest hread
    rw [List.filter_cons_of_pos hkeeps] at hgives
    exact hgives.trans (.of_leads (Bookmark.leads_emit following _ others))
  | case4 stack line c t hrest style n following hread token hkeeps ih =>
    -- a gap is passed over
    have hgap := hstep stack line c t style n following hrest hread
    rw [List.filter_cons_of_neg hkeeps] at hgap
    rcases ih with ⟨token', further, following', hnext, hgives⟩ | ⟨final, hnext, hgives⟩
    · exact Or.inl ⟨token', further, following', hnext, hgap.trans hgives⟩
    · exact Or.inr ⟨final, hnext, hgap.trans hgives⟩

namespace Scan

/-- **Asking for one token** makes calls up to the next one that is handed out. -/
theorem gives_nextIn (config : Config) (keepGaps : Bool) (stack : Stack) (lines : List OpenLine) :
    let pull := nextIn .blip config.rules keepGaps stack lines
    Gives config keepGaps ⟨stack, lines⟩ pull.token.toList ⟨pull.stack, pull.lines⟩ := by
  induction lines generalizing stack with
  | nil => exact .of_leads (.refl _)
  | cons line others ih =>
    dsimp only
    rw [nextIn]
    rcases OpenLine.gives_next config keepGaps stack line others with
      ⟨token, further, following, hnext, hgives⟩ | ⟨final, hnext, hgives⟩
    · rw [hnext]
      exact hgives
    · rw [hnext]
      exact hgives.trans (ih final)

theorem gives_pull (config : Config) (keepGaps : Bool) (count : Nat) (stack : Stack)
    (lines : List OpenLine) :
    let batch := pull config.rules count stack ⟨.blip, keepGaps, lines⟩
    batch.scan = ⟨.blip, keepGaps, batch.scan.lines⟩ ∧
      Gives config keepGaps ⟨stack, lines⟩ batch.tokens ⟨batch.stack, batch.scan.lines⟩ := by
  induction count generalizing stack lines with
  | zero => exact ⟨rfl, .of_leads (.refl _)⟩
  | succ count ih =>
    have hone := gives_nextIn config keepGaps stack lines
    dsimp only at hone ⊢
    rw [pull, next]
    dsimp only
    cases hnext : nextIn .blip config.rules keepGaps stack lines with
    | mk token events following left =>
      rw [hnext] at hone
      cases token with
      | none => exact ⟨rfl, hone⟩
      | some token =>
        obtain ⟨hscan, hrest⟩ := ih following left
        exact ⟨hscan, hone.trans hrest⟩

/-- **What a scan gives is what a run of calls finds.**  Each of the calls is made under the
configuration that is set when the scan is asked. -/
theorem exists_calls_of_asked (keepGaps : Bool) (asks : List (Config × Nat)) (stack : Stack)
    (lines : List OpenLine) :
    ∃ chunks : List (List Call),
      Bookmark.calls ⟨stack, lines⟩ (chunks.flatten.map Call.config) = chunks.flatten ∧
      List.Forall₂ (fun ask chunk => ∀ call ∈ chunk, call.config = ask.1) asks chunks ∧
      asked asks stack ⟨.blip, keepGaps, lines⟩ =
        chunks.map fun chunk => (chunk.map Call.token).filter (keeps keepGaps) := by
  suffices h : ∃ (chunks : List (List Call)) (last : Bookmark),
      Leads ⟨stack, lines⟩ chunks.flatten last ∧
      List.Forall₂ (fun ask chunk => ∀ call ∈ chunk, call.config = ask.1) asks chunks ∧
      asked asks stack ⟨.blip, keepGaps, lines⟩ =
        chunks.map fun chunk => (chunk.map Call.token).filter (keeps keepGaps) by
    obtain ⟨chunks, last, hleads, hconfigs, hasked⟩ := h
    have hcalls := hleads []
    rw [List.append_nil, Bookmark.calls_nil, List.append_nil] at hcalls
    exact ⟨chunks, hcalls, hconfigs, hasked⟩
  induction asks generalizing stack lines with
  | nil => exact ⟨[], ⟨stack, lines⟩, .refl _, .nil, rfl⟩
  | cons ask asks ih =>
    obtain ⟨config, count⟩ := ask
    let batch := pull config.rules count stack ⟨.blip, keepGaps, lines⟩
    obtain ⟨hscan, made, hconfig, htokens, hmade⟩ := gives_pull config keepGaps count stack lines
    obtain ⟨chunks, last, hleads, hconfigs, hasked⟩ := ih batch.stack batch.scan.lines
    refine ⟨made :: chunks, last, hmade.trans hleads, .cons hconfig hconfigs, ?_⟩
    rw [← hscan] at hasked
    rw [asked, List.map_cons, htokens, ← hasked]

end Scan

end ChipHighlight
