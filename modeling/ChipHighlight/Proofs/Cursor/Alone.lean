import ChipHighlight.Proofs.Cursor.Lookahead
import ChipHighlight.Proofs.Reading.Alone

/-!
# What is read at a cursor, on its own

A host that keeps the text of a span can read it again as a line of its own.  It gets the
same span, with the same style and the same literals open behind it (`read_again_alone`).
Only the three letters that are notes in front of a sharp which they do not have are then
words, and only as long as not every letter takes a sharp.
-/

namespace ChipHighlight.Cursor.Desk

/-- **A reading can be repeated on its own.**  What is taken outside of literals is some text,
and on a line of that text alone a reading takes all of it and leaves the same open.  The style
is the same too, but for a letter that was read as a note alone; then it is none on its own. -/
theorem read_again_alone (config : Config) (line : Text) {p : Nat} (hp : p < line.length)
    (spanStart : Int) :
    ∃ style n next, 0 < n ∧ p + n ≤ line.length ∧
      perform ⟨⟨line, p, spanStart⟩, []⟩ (.read config.rules) =
        some (.style style, ⟨⟨line, p + n, spanStart⟩, next⟩) ∧
      let own := (line.drop p).take n
      let leftSharp := config.lenientSharps.isOn = false ∧ LoneNote style own
      ∃ alone,
        perform ⟨.ofLine own, []⟩ (.read config.rules) =
          some (.style alone, ⟨⟨own, own.length, 0⟩, next⟩) ∧
        (¬ leftSharp → alone = style) ∧ (leftSharp → alone ≠ some .note) := by
  have hne : line.drop p ≠ [] := by
    rw [Ne, List.drop_eq_nil_iff]
    omega
  have hle := length_readNext_le config.rules [] (line.drop p)
  rw [List.length_drop] at hle
  obtain ⟨alone, hread, hstyle⟩ := readNext_alone config.rules (line.drop p)
  refine ⟨_, _, _, length_readNext_pos config.rules [] hne, by omega,
    perform_read config.rules [] line p spanStart, ?_⟩
  intro own leftSharp
  have hlen : own.length = (readNext config.rules [] (line.drop p)).length :=
    List.length_take_of_le (length_readNext_le ..)
  refine ⟨alone, ?_, fun hleft => ?_, fun hleft => ?_⟩
  · have hown := perform_read config.rules [] own 0 0
    rw [List.drop_zero, hread, Int.natCast_zero, Int.zero_add] at hown
    rw [hlen]
    exact hown
  · exact hstyle.resolve_right hleft
  · have hletter := style_readNext_ne_note config.rules hleft.2.2
    rwa [hread] at hletter

/-- A note in front of a sharp that it does not have, on its own: with every letter taking a
sharp it would be read together with it. -/
theorem letter_again_alone :
    let line := "c#1e#4".toList
    3 < line.length ∧
      perform ⟨⟨line, 3, 0⟩, []⟩ (.read Config.default.rules) =
        some (.style (some .note), ⟨⟨line, 4, 0⟩, []⟩) ∧
      ∃ alone,
        perform ⟨.ofLine ['e'], []⟩ (.read Config.default.rules) =
          some (.style alone, ⟨⟨['e'], 1, 0⟩, []⟩) ∧ alone ≠ some .note := by
  intro line
  have hp : 3 < line.length := by decide
  have hline : perform ⟨⟨line, (3 : Nat), 0⟩, []⟩ (.read Config.default.rules) =
      some (.style (some .note), ⟨⟨line, 4, 0⟩, []⟩) := rfl
  obtain ⟨style, n, next, -, -, hread, alone, hown, -, hleft⟩ :=
    read_again_alone Config.default line hp 0
  obtain ⟨rfl, hplace, rfl⟩ := read_answer_inj (hline.symm.trans hread)
  obtain rfl : n = 1 := by omega
  exact ⟨hp, hline, alone, hown, hleft ⟨rfl, by decide⟩⟩

end ChipHighlight.Cursor.Desk
