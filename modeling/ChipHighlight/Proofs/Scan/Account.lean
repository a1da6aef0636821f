import ChipHighlight.Proofs.Profile.Tally
import ChipHighlight.Proofs.Scan.Moments

/-!
# What a scan accounts for

A scan hands out tokens, and between them it passes the ends of lines.  It does not matter
here what the rules are, which stack it finds, or how often both change between two tokens:
every line that it passes is accounted for once, with all of its characters and with the
tokens that were handed out for it (`Accounts`), and it passes a line when it hands out a
token behind it, or meets its end.

`Stage` says where a scan is: the tokens that it has given so far, and the lines that it
has not passed yet, of which only the first may be begun.  From any stage, asking for tokens
accounts for the lines that are passed and leads to another stage (`accounts_pull`), and what
is done in two goes adds up (`Accounts.trans`).
-/

namespace ChipHighlight

namespace OpenLine

variable (mode : Mode) (rules : Rules) (keepGaps : Bool)

/-- **Going on in a line** leads to a token of this line, which is counted, or to its end. -/
theorem next_counts (stack : Stack) (line : OpenLine) :
    (∃ token further following,
      line.next mode rules keepGaps stack = .token token further following ∧
      token.line = line.number ∧ further.number = line.number ∧
      further.chars = line.chars ∧ further.emitted = line.emitted + 1) ∨
    ∃ final, line.next mode rules keepGaps stack = .finished final := by
  fun_induction OpenLine.next mode rules keepGaps stack line with
  | case1 stack line hrest => exact Or.inr ⟨stack, rfl⟩
  | case2 stack line c t hrest style final hread => exact Or.inr ⟨final, rfl⟩
  | case3 stack line c t hrest style n following hread token hkeeps =>
    have hchars := chars_advance mode rules hrest hread
    exact Or.inl ⟨token, _, following, rfl, rfl, rfl, hchars, rfl⟩
  | case4 stack line c t hrest style n following hread token hkeeps ih =>
    -- a gap is passed over, which changes neither the length nor the count
    rcases ih with ⟨token, further, following, hnext, hline, hnumber, hchars, hemitted⟩ | hfinished
    · have hlength := chars_advance mode rules hrest hread
      exact Or.inl ⟨token, further, following, hnext, hline, hnumber, hchars.trans hlength, hemitted⟩
    · exact Or.inr hfinished

end OpenLine

namespace Scan

/-! ### Stages -/

/-- The lines that a scan has not passed yet: the first of the texts has the given number,
and some of the tokens may stand on it. -/
inductive Ahead (given : List Token) (number : Int) : List Text → List OpenLine → Prop
  | nothing : Ahead given number [] []
  | begun {line : OpenLine} {text : Text} {texts : List Text}
      (number_eq : line.number = number) (chars_eq : line.chars = text.length)
      (emitted_eq : line.emitted = given.countP fun token => token.line = number) :
      Ahead given number (text :: texts) (line :: numbered (number + 1) texts)

/-- **Where a scan is**, after it has given some tokens. -/
structure Stage (given : List Token) (number : Int) (texts : List Text)
    (lines : List OpenLine) : Prop where
  line_le : ∀ token ∈ given, token.line ≤ number
  ahead : Ahead given number texts lines

theorem stage_numbered {given : List Token} {number : Int} (texts : List Text)
    (h : ∀ token ∈ given, token.line < number) :
    Stage given number texts (numbered number texts) := by
  refine ⟨fun token htoken => Int.le_of_lt (h token htoken), ?_⟩
  cases texts with
  | nil => exact .nothing
  | cons text texts =>
    refine .begun rfl (Nat.zero_add _) (Eq.symm ?_)
    rw [List.countP_eq_zero]
    intro token htoken
    have := h token htoken
    simp only [decide_eq_true_iff]
    omega

theorem Stage.give {given : List Token} {number : Int} {text : Text} {texts : List Text}
    {line further : OpenLine} {others : List OpenLine} {token : Token}
    (h : Stage given number (text :: texts) (line :: others)) (htoken : token.line = line.number)
    (hnumber : further.number = line.number) (hchars : further.chars = line.chars)
    (hemitted : further.emitted = line.emitted + 1) :
    Stage (given ++ [token]) number (text :: texts) (further :: others) := by
  obtain ⟨hline, hahead⟩ := h
  cases hahead with
  | begun number_eq chars_eq emitted_eq =>
    rw [number_eq] at htoken hnumber
    refine ⟨?_, .begun hnumber (hchars.trans chars_eq) ?_⟩
    · intro other hother
      rcases List.mem_append.mp hother with hmem | hmem
      · exact hline other hmem
      · cases List.mem_singleton.mp hmem
        exact Int.le_of_eq htoken
    · rw [hemitted, emitted_eq, List.countP_append]
      simp [htoken]

/-! ### Accounts -/

/-- **What a scan accounts for** while it gives some more tokens: the first `ended` of the
texts, which are those in front of its last token, or all if its end was met. -/
structure Accounts (given : List Token) (number : Int) (texts : List Text) (more : List Token)
    (tallies : List Tally) (met : Prop) (ended : Nat) : Prop where
  ended_le : ended ≤ texts.length
  tallies_eq : tallies = Tally.ofLines (given ++ more) number (texts.take ended)
  number_le : ∀ token ∈ more, number ≤ token.line
  ended_iff : ∀ i < texts.length, i < ended ↔ met ∨ ∃ token ∈ more, number + i < token.line

namespace Accounts

variable {given more further : List Token} {number : Int} {text : Text} {texts : List Text}
  {tallies others : List Tally} {met met' : Prop} {ended ended' : Nat}

theorem nothing (given : List Token) (number : Int) (texts : List Text) (h : ¬ met) :
    Accounts given number texts [] [] met 0 where
  ended_le := Nat.zero_le _
  tallies_eq := by rw [List.take_zero]; rfl
  number_le token htoken := by cases htoken
  ended_iff i _ := by simp [h]

theorem token {token : Token} (h : token.line = number) :
    Accounts given number texts [token] [] False 0 where
  ended_le := Nat.zero_le _
  tallies_eq := by rw [List.take_zero]; rfl
  number_le other hother := by
    cases List.mem_singleton.mp hother
    exact Int.le_of_eq h.symm
  ended_iff i _ := by
    simp only [List.mem_singleton, exists_eq_left, h, Nat.not_lt_zero, false_or, false_iff]
    omega

theorem cons (h : Accounts given (number + 1) texts more tallies met ended)
    (hpassed : met ∨ more ≠ []) :
    Accounts given number (text :: texts) more
      (⟨text.length, given.countP fun token => token.line = number⟩ :: tallies) met
      (ended + 1) where
  ended_le := Nat.succ_le_succ h.ended_le
  tallies_eq := by
    have hnone : (more.countP fun token => token.line = number) = 0 := by
      rw [List.countP_eq_zero]
      intro token htoken
      have := h.number_le token htoken
      simp only [decide_eq_true_iff]
      omega
    rw [List.take_succ_cons, Tally.ofLines, List.countP_append, hnone, Nat.add_zero,
      ← h.tallies_eq]
  number_le token htoken := by
    have := h.number_le token htoken
    omega
  ended_iff i hi := by
    cases i with
    | zero =>
      refine ⟨fun _ => ?_, fun _ => Nat.succ_pos ended⟩
      rcases hpassed with hmet | hmore
      · exact Or.inl hmet
      · obtain ⟨token, htoken⟩ := List.exists_mem_of_ne_nil more hmore
        have := h.number_le token htoken
        exact Or.inr ⟨token, htoken, by omega⟩
    | succ i =>
      have hnumber : number + (i + 1 : Nat) = number + 1 + i := by omega
      rw [Nat.succ_lt_succ_iff, hnumber]
      exact h.ended_iff i (Nat.lt_of_succ_lt_succ hi)

/-- **What is done in two goes** adds up. -/
theorem trans (h : Accounts given number texts more tallies met ended)
    (hline : ∀ token ∈ given ++ more, token.line ≤ number + ended)
    (h' : Accounts (given ++ more) (number + ended) (texts.drop ended) further others met' ended') :
    Accounts given number texts (more ++ further) (tallies ++ others) (met ∨ met')
      (ended + ended') where
  ended_le := by
    have := h.ended_le
    have := h'.ended_le
    rw [List.length_drop] at this
    omega
  tallies_eq := by
    have hlength : (texts.take ended).length = ended := List.length_take_of_le h.ended_le
    have hbehind : ∀ token ∈ further, number + (texts.take ended).length ≤ token.line := by
      rw [hlength]
      exact h'.number_le
    rw [h.tallies_eq, h'.tallies_eq, List.take_add, Tally.ofLines_append, hlength,
      ← List.append_assoc, Tally.ofLines_append_right _ hbehind]
  number_le token htoken := by
    rcases List.mem_append.mp htoken with hmore | hfurther
    · exact h.number_le token hmore
    · have := h'.number_le token hfurther
      omega
  ended_iff i hi := by
    by_cases hfirst : i < ended
    · refine ⟨fun _ => ?_, fun _ => Nat.lt_add_right ended' hfirst⟩
      rcases (h.ended_iff i hi).mp hfirst with hmet | ⟨token, htoken, hlt⟩
      · exact Or.inl (Or.inl hmet)
      · exact Or.inr ⟨token, List.mem_append_left further htoken, hlt⟩
    · -- nothing in the first go says that this line was passed
      obtain ⟨j, rfl⟩ := Nat.exists_eq_add_of_le (Nat.le_of_not_lt hfirst)
      have hmet : ¬ met := fun hmet => hfirst ((h.ended_iff _ hi).mpr (Or.inl hmet))
      have hmore : ∀ token ∈ more, ¬ number + (ended + j : Nat) < token.line := by
        intro token htoken
        have := hline token (List.mem_append_right given htoken)
        omega
      have hnumber : number + (ended + j : Nat) = number + ended + j := by omega
      have hj : j < (texts.drop ended).length := by
        rw [List.length_drop]
        omega
      rw [Nat.add_lt_add_iff_left, h'.ended_iff j hj, ← hnumber]
      constructor
      · rintro (hmet' | ⟨token, htoken, hlt⟩)
        · exact Or.inl (Or.inr hmet')
        · exact Or.inr ⟨token, List.mem_append_right more htoken, hlt⟩
      · rintro ((hmet' | hmet') | ⟨token, htoken, hlt⟩)
        · exact absurd hmet' hmet
        · exact Or.inl hmet'
        · rcases List.mem_append.mp htoken with hmem | hmem
          · exact absurd hlt (hmore token hmem)
          · exact Or.inr ⟨token, hmem, hlt⟩

end Accounts

/-! ### Asking for tokens -/

section

variable {given : List Token} {number : Int} {texts : List Text} {lines : List OpenLine}

theorem accounts_nextIn (mode : Mode) (rules : Rules) (keepGaps : Bool) (stack : Stack)
    (h : Stage given number texts lines) :
    let pull := nextIn mode rules keepGaps stack lines
    ∃ ended,
      Accounts given number texts pull.token.toList (Tally.ofEvents pull.events)
        (pull.token = none) ended ∧
      Stage (given ++ pull.token.toList) (number + ended) (texts.drop ended) pull.lines := by
  intro pull
  induction texts generalizing number lines stack with
  | nil =>
    obtain ⟨hline, hahead⟩ := h
    cases hahead
    refine ⟨0, ⟨Nat.le_refl 0, rfl, nofun, nofun⟩, ?_, .nothing⟩
    simpa [pull, nextIn] using hline
  | cons text texts ih =>
    obtain ⟨line, others, rfl⟩ : ∃ line others, lines = line :: others := by
      cases h.ahead
      exact ⟨_, _, rfl⟩
    rcases line.next_counts mode rules keepGaps stack with
      ⟨token, further, following, hnext, htoken, hnumber, hchars, hemitted⟩ | ⟨final, hnext⟩
    · have hpull : pull = ⟨some token, [], following, further :: others⟩ := by
        show nextIn mode rules keepGaps stack _ = _
        rw [nextIn, hnext]
      have hnone : (some token = none) = False := by simp
      have hgiven := h.give htoken hnumber hchars hemitted
      cases h.ahead with
      | begun number_eq _ _ =>
        rw [hpull, hnone]
        refine ⟨0, .token (htoken.trans number_eq), ?_⟩
        rw [Int.natCast_zero, Int.add_zero]
        exact hgiven
    · let rest := nextIn mode rules keepGaps final others
      have hpull : pull = { rest with events := line.ended final.length :: rest.events } := by
        show nextIn mode rules keepGaps stack _ = _
        rw [nextIn, hnext]
      have hpassed : rest.token = none ∨ rest.token.toList ≠ [] := by
        cases rest.token with
        | none => exact Or.inl rfl
        | some token => exact Or.inr (List.cons_ne_nil token [])
      cases h.ahead with
      | begun number_eq chars_eq emitted_eq =>
        have hbegin : Stage given (number + 1) texts (numbered (number + 1) texts) :=
          stage_numbered texts fun token htoken => Int.lt_add_one_of_le (h.line_le token htoken)
        obtain ⟨ended, haccounts, hstage⟩ := ih final hbegin
        have htally : Tally.ofEvents pull.events =
            ⟨text.length, given.countP fun token => token.line = number⟩ ::
              Tally.ofEvents rest.events := by
          rw [hpull, ← chars_eq, ← emitted_eq]
          rfl
        have hnumber : number + (ended + 1 : Nat) = number + 1 + ended := by omega
        refine ⟨ended + 1, ?_, ?_⟩
        · rw [htally, hpull]
          exact haccounts.cons hpassed
        · rw [hpull, hnumber, List.drop_succ_cons]
          exact hstage

/-- **Asking for some tokens** accounts for the lines that are passed. -/
theorem accounts_pull (rules : Rules) (n : Nat) (stack : Stack) {scan : Scan}
    (h : Stage given number texts scan.lines) :
    let batch := scan.pull rules n stack
    ∃ ended,
      Accounts given number texts batch.tokens (Tally.ofEvents batch.events)
        (batch.finished = true) ended ∧
      Stage (given ++ batch.tokens) (number + ended) (texts.drop ended) batch.scan.lines := by
  intro batch
  induction n generalizing given number texts stack scan with
  | zero =>
    refine ⟨0, .nothing given number texts Bool.false_ne_true, ?_⟩
    simpa [batch, pull] using h
  | succ n ih =>
    obtain ⟨ended, haccounts, hstage⟩ :=
      accounts_nextIn scan.mode rules scan.keepGaps stack h
    cases hnext : nextIn scan.mode rules scan.keepGaps stack scan.lines with
    | mk token events following left =>
      rw [hnext] at haccounts hstage
      cases token with
      | none =>
        have hbatch : batch = ⟨[], events, following, { scan with lines := left }, true⟩ := by
          show scan.pull rules (n + 1) stack = _
          rw [pull, next, hnext]
        rw [hbatch]
        have hmet : ((none : Option Token) = none) = (true = true) := by simp
        rw [hmet] at haccounts
        exact ⟨ended, haccounts, hstage⟩
      | some token =>
        let others := pull rules n following { scan with lines := left }
        have hbatch : batch =
            { others with tokens := token :: others.tokens, events := events ++ others.events } := by
          show scan.pull rules (n + 1) stack = _
          rw [pull, next, hnext]
        have hleft : Stage (given ++ [token]) (number + ended) (texts.drop ended)
            { scan with lines := left }.lines := hstage
        obtain ⟨ended', haccounts', hstage'⟩ := ih following hleft
        have hboth := haccounts.trans hstage.line_le haccounts'
        have hmet : (some token = none ∨ others.finished = true) = (others.finished = true) := by
          simp
        rw [hmet, ← Tally.ofEvents_append] at hboth
        refine ⟨ended + ended', ?_, ?_⟩
        · rw [hbatch]
          exact hboth
        · rw [hbatch, Int.natCast_add, ← Int.add_assoc, ← List.drop_drop]
          rw [List.append_assoc] at hstage'
          exact hstage'

end

end Scan

end ChipHighlight
