import ChipHighlight.Config.Basic
import ChipHighlight.Cursor.Action
import ChipHighlight.Proofs.Cursor.Reads
import ChipHighlight.Proofs.Reading.Lookahead

/-!
# What a reading at a cursor depends on

A host reads at a place of a line, and only the text from there on is looked at
(`perform_read`), of that only what is taken and one character more
(`readNext_of_sameAhead`).  So wherever that text stands, in whatever line and at whatever
place, the reading is the same (`read_looks_one_ahead`).
-/

namespace ChipHighlight.Cursor.Desk

theorem perform_read (rules : Rules) (stack : Stack) (line : Text) (p : Nat) (spanStart : Int) :
    perform ⟨⟨line, p, spanStart⟩, stack⟩ (.read rules) =
      some (.style (readNext rules stack (line.drop p)).style,
        ⟨⟨line, p + (readNext rules stack (line.drop p)).length, spanStart⟩,
          (readNext rules stack (line.drop p)).stack⟩) := by
  have hread : Cursor.read? rules stack ⟨line, p, spanStart⟩ =
      some (readNext rules stack (line.drop p)) := read?_of_nonneg (Int.natCast_nonneg p) stack
  rw [perform, Desk.read, hread]
  rfl

theorem read_answer_inj {style other : Option Style} {line : Text} {place further spanStart : Int}
    {stack next : Stack}
    (h : some (Answer.style style, (⟨⟨line, place, spanStart⟩, stack⟩ : Desk)) =
      some (.style other, ⟨⟨line, further, spanStart⟩, next⟩)) :
    style = other ∧ place = further ∧ stack = next := by
  simp only [Option.some.injEq, Prod.mk.injEq, Answer.style.injEq, Desk.mk.injEq,
    Cursor.mk.injEq] at h
  obtain ⟨hstyle, ⟨-, hplace, -⟩, hstack⟩ := h
  exact ⟨hstyle, hplace, hstack⟩

/-- **A reading looks one character ahead, and not back.**  Before the end of a line it
takes some text and comes to a style and a stack; and wherever else the same text stands,
with the same character or the end of the line behind it, it takes as much and comes to
the same. -/
theorem read_looks_one_ahead (config : Config) (stack : Stack) (here : Text) (p : Nat)
    (hereStart : Int) (hp : p < here.length) :
    ∃ style n next, 0 < n ∧ p + n ≤ here.length ∧
      perform ⟨⟨here, p, hereStart⟩, stack⟩ (.read config.rules) =
        some (.style style, ⟨⟨here, p + n, hereStart⟩, next⟩) ∧
      ∀ (there : Text) (q : Nat) (thereStart : Int),
        (there.drop q).take n = (here.drop p).take n → there[q + n]? = here[p + n]? →
        perform ⟨⟨there, q, thereStart⟩, stack⟩ (.read config.rules) =
          some (.style style, ⟨⟨there, q + n, thereStart⟩, next⟩) := by
  have hne : here.drop p ≠ [] := by
    rw [Ne, List.drop_eq_nil_iff]
    omega
  have hle := length_readNext_le config.rules stack (here.drop p)
  rw [List.length_drop] at hle
  refine ⟨_, _, _, length_readNext_pos config.rules stack hne, by omega,
    perform_read config.rules stack here p hereStart, ?_⟩
  intro there q thereStart htext hnext
  have hahead : SameAhead (readNext config.rules stack (here.drop p)).length
      (here.drop p) (there.drop q) :=
    .of_take htext.symm (by rw [List.getElem?_drop, List.getElem?_drop, hnext])
  rw [perform_read, readNext_of_sameAhead hahead]

/-- A note in front of a sharp that it does not have: the sharp is looked at, and what
follows it is not. -/
theorem note_before_sharp :
    let here := "ce#1".toList
    let there := "% e#\"".toList
    1 < here.length ∧ (there.drop 2).take 1 = (here.drop 1).take 1 ∧
      there[2 + 1]? = here[1 + 1]? ∧
      perform ⟨⟨there, 2, 0⟩, []⟩ (.read Config.default.rules) =
        some (.style (some .note), ⟨⟨there, 3, 0⟩, []⟩) := by
  intro here there
  have hp : 1 < here.length := by decide
  have htext : (there.drop 2).take 1 = (here.drop 1).take 1 := by decide
  have hnext : there[2 + 1]? = here[1 + 1]? := by decide
  obtain ⟨style, n, next, -, -, hread, hother⟩ :=
    read_looks_one_ahead Config.default [] here 1 0 hp
  have hline : perform ⟨⟨here, (1 : Nat), 0⟩, []⟩ (.read Config.default.rules) =
      some (.style (some .note), ⟨⟨here, 2, 0⟩, []⟩) := rfl
  rw [hline] at hread
  simp only [Option.some.injEq, Prod.mk.injEq, Answer.style.injEq, Desk.mk.injEq,
    Cursor.mk.injEq] at hread
  obtain ⟨rfl, ⟨-, hplace, -⟩, rfl⟩ := hread
  obtain rfl : n = 1 := by omega
  exact ⟨hp, htext, hnext, hother there 2 0 htext hnext⟩

end ChipHighlight.Cursor.Desk
