import Workdays.Proofs.Rule.RoundTrip
import Workdays.Proofs.Rule.Tail

/-!
# Forms on one line

The form of a rule stands on one line, whatever its description holds, and the line is neither
blank nor a comment: the only blanks of a form are the spaces between its parts and the blanks of
the description, and these are no line breaks.
-/

namespace Workdays

variable {c : Char}

theorem Pattern.notMem_write {p : Pattern} (hblank : Text.isBlank c) (hspace : c ≠ ' ') :
    c ∉ p.write := by
  have hfield {σ : Type} [Written σ] [Faithful σ] [HasAll σ] (selectors : List σ) :
      c ∉ writeField selectors := by
    intro hc
    rw [((isField_writeField selectors).2 c hc).1] at hblank
    cases hblank
  simp [write, List.intercalate, hfield, hspace]

namespace Rule

theorem oneLine_descriptionText (r : Rule) :
    ∀ text ∈ r.descriptionText, '\n' ∉ text.toList ∧ '\r' ∉ text.toList := by
  intro text htext
  obtain ⟨d, -, rfl⟩ := Option.map_eq_some_iff.1 htext
  exact d.oneLine

/-- A form has no line break. -/
theorem oneLine_write (r : Rule) : '\n' ∉ r.write ∧ '\r' ∉ r.write := by
  have hdescription := r.oneLine_descriptionText
  simp only [write, List.mem_append, not_or]
  refine ⟨⟨Pattern.notMem_write (by decide) (by decide), ?_⟩,
    Pattern.notMem_write (by decide) (by decide), ?_⟩
  · exact notMem_writeTail (by decide) (by decide) fun text htext => (hdescription text htext).1
  · exact notMem_writeTail (by decide) (by decide) fun text htext => (hdescription text htext).2

/-- A form starts with a character of its first field. -/
theorem not_isEnd_write (r : Rule) : ¬ LineParts.IsEnd r.write := by
  have hfield := Pattern.isField_writeField r.pattern.years
  obtain ⟨c, field, heq⟩ := List.exists_cons_of_ne_nil hfield.1
  have hwrite : ∃ rest, r.write = Pattern.writeField r.pattern.years ++ rest := by
    simp [write, Pattern.write, List.intercalate]
  obtain ⟨rest, hwrite⟩ := hwrite
  have hc := hfield.2 c (by simp [heq])
  rw [LineParts.isEnd_iff, hwrite, hfield.dropBlanks_append, heq]
  simp [hc.2]

end Rule

end Workdays
