import ChipHighlight.Config.Setting
import ChipHighlight.Rules

/-!
# The configuration of a scan

A configuration chooses the rules: whether every note letter takes a sharp, which
further words count as keywords, and the style of quoted literals.  The first is
kept as it was handed in and only read as a yes or a no.  So there are fewer rules
than configurations, and two configurations can be equal, which `Config.same`
decides by value, without being identical.  `rules_of_same` is why that does not
matter: equal configurations choose the same rules.
-/

namespace ChipHighlight

structure Config where
  lenientSharps : Setting := .bool false
  extraKeywords : WordSet := .empty
  stringStyle : Style := .string

namespace Config

def default : Config := {}

def rules (c : Config) : Rules where
  lenient := c.lenientSharps.isOn
  keywords := c.extraKeywords
  literalStyle := c.stringStyle

def same (a b : Config) : Bool :=
  a.lenientSharps.same b.lenientSharps && a.extraKeywords == b.extraKeywords &&
    a.stringStyle == b.stringStyle

theorem same_refl (c : Config) : c.same c = true := by
  simp [same, Setting.same_refl]

/-- **Equal configurations choose the same rules.** -/
theorem rules_of_same {a b : Config} (h : a.same b = true) : a.rules = b.rules := by
  simp only [same, Bool.and_eq_true, beq_iff_eq] at h
  obtain ⟨⟨hsharps, hwords⟩, hstyle⟩ := h
  rw [rules, rules, Setting.isOn_of_same hsharps, hwords, hstyle]

end Config

end ChipHighlight
