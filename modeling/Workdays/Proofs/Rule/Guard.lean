import Workdays.Proofs.Rule.RoundTrip

/-!
# The guard on descriptions

Where a description ends is told in two ways: the guard searches the text of a description for
brackets that would end it, and the reader of a line looks ahead from brackets to what follows them.
They agree on every text. The guard passes the texts that are read back from a form, and of what
stands between the brackets in a line it refuses line breaks only.
-/

namespace Workdays

variable {text : String} {pattern : Pattern} {periods : List Period} {r : Rule}

/-- A text that is not cut by its brackets can still have a line break. -/
theorem Description.ofText_eq_error_iff {fault : DescriptionFault}
    (hblank : ¬ Text.AllBlank text.toList) (hcut : isCut text.toList = false) :
    ofText text = .error fault ↔
      fault = .severalLines ∧ ('\n' ∈ text.toList ∨ '\r' ∈ text.toList) := by
  rw [ofText, dif_neg hblank]
  by_cases hline : '\n' ∉ text.toList ∧ '\r' ∉ text.toList
  · rw [dif_pos hline, dif_pos hcut]
    constructor
    · intro h
      cases h
    · intro h
      obtain ⟨-, h | h⟩ := h
      · exact absurd h hline.1
      · exact absurd h hline.2
  · rw [dif_neg hline, Except.error.injEq, eq_comm]
    rw [not_and_or, not_not, not_not] at hline
    exact (and_iff_left hline).symm

namespace Rule

/-- A rule that is made of parts has the description that was asked for, so the guard passed it. -/
theorem isCut_eq_false_of_descriptionText (h : r.descriptionText = some text) :
    ∀ text' ∈ some text, Description.isCut text'.toList = false := by
  rw [← h]
  exact isCut_of_mem_descriptionText

/-- The guard passes a description just when the line that holds it is read with it. -/
theorem ofParts_eq_ok_iff_parse? (hread : pattern.IsRead) (hblank : ¬ Text.AllBlank text.toList) :
    ofParts pattern (some text) periods = .ok r ↔
      parse? Rule (String.ofList (pattern.write ++ writeTail (some text) periods)) = some r ∧
        r.descriptionText = some text ∧ r.periods = periods := by
  have htext := Description.unlessBlank_of_not_allBlank hblank
  rw [ofParts_eq_ok_iff, htext]
  constructor
  · intro h
    obtain ⟨hpattern, hperiods, hdescription⟩ := h
    have hcut := isCut_eq_false_of_descriptionText hdescription
    rw [parse?_write_eq_some_iff hcut, htext, hread.filled_eq]
    exact ⟨⟨hread.isLegible, hpattern, hperiods, hdescription⟩, hdescription, hperiods⟩
  · intro h
    obtain ⟨hparse, hdescription, hperiods⟩ := h
    have hcut := isCut_eq_false_of_descriptionText hdescription
    rw [parse?_write_eq_some_iff hcut, hread.filled_eq] at hparse
    exact ⟨hparse.2.1, hperiods, hdescription⟩

/-- The guard and the reader of a line agree on where a description ends. Whatever rule the guard
lets through is read back with its description, and the other way round; a form keeps its parts just
when the guard finds no cut; and in what the reader takes for a description the guard finds none. -/
theorem guard_agrees_with_reader :
    (∀ (pattern : Pattern) (text : String) (periods : List Period),
      pattern.IsRead → ¬ Text.AllBlank text.toList →
        ∀ r, ofParts pattern (some text) periods = .ok r ↔
          parse? Rule (String.ofList (pattern.write ++ writeTail (some text) periods)) = some r ∧
            r.descriptionText = some text ∧ r.periods = periods) ∧
    (∀ (pattern : Pattern) (text : String) (periods : List Period),
      LineParts.read? (pattern.write ++ writeTail (some text) periods) =
          some (formParts pattern (some text) periods) ↔
        Description.isCut text.toList = false) ∧
    ∀ (line : List Char) (parts : LineParts) (text : String),
      LineParts.read? line = some parts → parts.description = some text.toList →
        ¬ Text.AllBlank text.toList →
          Description.isCut text.toList = false ∧
            ∀ fault, Description.ofText text = .error fault ↔
              fault = .severalLines ∧ ('\n' ∈ text.toList ∨ '\r' ∈ text.toList) := by
  refine ⟨fun pattern text periods hread hblank r => ofParts_eq_ok_iff_parse? hread hblank,
    fun pattern text periods => ?_, fun line parts text hparts htext hblank => ?_⟩
  · rw [read?_write_eq_some_formParts_iff]
    simp
  · have hcut := (LineParts.layout_of_read? hparts).isCut_eq_false text.toList htext
    exact ⟨hcut, fun fault => Description.ofText_eq_error_iff hblank hcut⟩

/-- Brackets that nothing follows pass the guard, and the line is read with them. -/
theorem guard_agrees_on_brackets :
    (default : Pattern).filled.IsRead ∧ ¬ Text.AllBlank "a]]b".toList ∧
      ∃ r, ofParts (default : Pattern).filled (some "a]]b") [Period.allDay] = .ok r ∧
        parse? Rule "* * * * [[a]]b]] 00:00-24:00" = some r ∧
          r.descriptionText = some "a]]b" ∧ r.periods = [Period.allDay] := by
  have hread : (default : Pattern).filled.IsRead := Pattern.IsLegible.isRead_filled (by decide)
  have hblank : ¬ Text.AllBlank "a]]b".toList := by decide
  have htext : String.ofList ((default : Pattern).filled.write ++
      writeTail (some "a]]b") [Period.allDay]) = "* * * * [[a]]b]] 00:00-24:00" := by decide +kernel
  have hok : ofParts (default : Pattern).filled (some "a]]b") [Period.allDay] =
      .ok ⟨(default : Pattern).filled, some ⟨"a]]b", by decide, by decide, by decide⟩,
        [Period.allDay]⟩ :=
    ofParts_eq_ok_iff.2 ⟨rfl, rfl, by decide⟩
  have hagree := (guard_agrees_with_reader.1 _ _ _ hread hblank _).1 hok
  rw [htext] at hagree
  exact ⟨hread, hblank, _, hok, hagree⟩

end Rule

end Workdays
