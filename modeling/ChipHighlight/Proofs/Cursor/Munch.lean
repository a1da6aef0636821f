import ChipHighlight.Proofs.Cursor.Lookahead
import ChipHighlight.Proofs.Reading.Grammar

/-!
# What is read at a cursor

The grammar of lexemes says of the beginning of a text what is taken there and in which style.
At a place of a line with nothing open, the text is that behind the place, so a host that
asks for a reading there is given what the grammar makes of it (`read_munches`).
-/

namespace ChipHighlight.Cursor.Desk

/-- **A reading outside of literals is a maximal munch.**  At every place of a line but in front
of a quote, the first pattern of the grammar that applies is taken in its longest match there;
the answer is the style of that pattern, and nothing is open behind it. -/
theorem read_munches (config : Config) (text : Text) {p : Nat} (hp : p < text.length)
    (hquote : ¬ isQuote text[p] = true) (spanStart : Int) :
    ∃ pattern taken, Munches config.rules (text.drop p) pattern taken ∧
      perform ⟨⟨text, p, spanStart⟩, []⟩ (.read config.rules) =
        some (.style (pattern.style taken), ⟨⟨text, p + taken.length, spanStart⟩, []⟩) := by
  have hdrop := List.drop_eq_getElem_cons hp
  obtain ⟨pattern, taken, hmunches, hread⟩ :=
    exists_munches_readLexeme config.rules hquote (text.drop (p + 1))
  rw [← readNext_base, ← hdrop] at hread
  rw [← hdrop] at hmunches
  refine ⟨pattern, taken, hmunches, ?_⟩
  rw [perform_read, hread]

/-- A note that has no sharp, in front of one: the letter is the longest match of the pattern of
notes. -/
theorem munch_before_sharp :
    let text := "x e#4".toList
    perform ⟨⟨text, 2, 0⟩, []⟩ (.read Config.default.rules) =
        some (.style (some .note), ⟨⟨text, 3, 0⟩, []⟩) ∧
      ∃ pattern, Munches Config.default.rules (text.drop 2) pattern ['e'] ∧
        pattern.style ['e'] = some .note := by
  intro text
  have hp : 2 < text.length := by decide
  have hquote : ¬ isQuote text[2] = true := Bool.false_ne_true
  obtain ⟨pattern, taken, hmunches, hread⟩ := read_munches Config.default text hp hquote 0
  have hanswer : perform ⟨⟨text, (2 : Nat), 0⟩, []⟩ (.read Config.default.rules) =
      some (.style (some .note), ⟨⟨text, 3, 0⟩, []⟩) := rfl
  obtain ⟨hstyle, hplace, -⟩ := read_answer_inj (hanswer.symm.trans hread)
  have hlen : taken.length = 1 := by omega
  obtain rfl : taken = ['e'] := by
    rw [List.prefix_iff_eq_take.mp hmunches.longest.initial, hlen]
    rfl
  exact ⟨hanswer, pattern, hmunches, hstyle.symm⟩

end ChipHighlight.Cursor.Desk
