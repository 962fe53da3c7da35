import Workdays.Proofs.Rule.Reading
import Workdays.Proofs.Selector.Grammar
import Workdays.Proofs.Text.Reasons
import Workdays.Proofs.Time.Canonical

/-!
# Reasons for refused rules

The text of a time, of a period, of a selector or of a rule is never blank: the first two have their
marks, a selector has a digit or a mark, and a rule has the first of its fields. So with and without
reasons the same texts are read.
-/

namespace Workdays

variable {D : Domain} {cs : List Char}

instance : Visible Time where
  not_allBlank_of_read? {cs t} h := by
    obtain ⟨h₁, h₂, m₁, m₂, hwrite, -⟩ := t.exists_write_eq
    rw [Time.read?_eq_some_iff.1 h, hwrite]
    exact Text.not_allBlank_iff.2 ⟨':', by simp, by decide⟩

instance : Visible Period where
  not_allBlank_of_read? {cs p} h := by
    rw [Period.read?_eq_some_iff.1 h]
    exact Text.not_allBlank_iff.2 ⟨'-', by simp [Period.write], by decide⟩

theorem Spelling.Spells.ne_nil {e : Spelling} (h : Spells cs e) : cs ≠ [] := by
  rintro rfl
  cases e with
  | interval b => cases spells_interval_iff.1 h
  | stride =>
    obtain ⟨range, ps, hcut, -⟩ := spells_stride_iff.1 h
    cases hcut

theorem Spelling.Spells.not_allBlank {e : Spelling} (h : Spells cs e) : ¬ Text.AllBlank cs :=
  (Text.isPlain_of_isDigit_or_mem (by decide) h.mem).not_allBlank h.ne_nil

instance : Visible (Selector D) where
  not_allBlank_of_read? h := by
    obtain ⟨e, hspells, -⟩ := Spelling.read?_eq_some_iff.1 h
    exact hspells.not_allBlank

instance : Visible YearSelector where
  not_allBlank_of_read? h := by
    obtain ⟨e, hspells, -⟩ := YearSpelling.read?_eq_some_iff.1 h
    cases hspells with
    | plain hspells => exact hspells.not_allBlank
    | qualified q =>
      have hmark : '/' ∈ q.mark := by cases q <;> decide
      exact Text.not_allBlank_iff.2 ⟨'/', List.mem_append_right _ hmark, by decide⟩

theorem LineParts.Layout.not_allBlank {p : LineParts} (h : p.Layout cs) : ¬ Text.AllBlank cs := by
  obtain @⟨lead, gap₁, gap₂, gap₃, tail, -, ⟨hne, hyear⟩, -, -, -, -, -, -, -, rfl⟩ := h
  obtain ⟨c, hc⟩ := List.exists_mem_of_ne_nil _ hne
  exact Text.not_allBlank_iff.2 ⟨c, by simp [hc], (hyear c hc).1⟩

instance : Visible Rule where
  not_allBlank_of_read? h := by
    obtain ⟨p, hread, -⟩ := Rule.read?_eq_some_iff.1 h
    exact (LineParts.layout_of_read? hread).not_allBlank

/-- For times, periods, selectors and rules, and for lists, reading with reasons gives the values
that reading without gives. It fails with the reason for which the text is refused. -/
theorem parse_agrees_with_parse? :
    Written.Reasoned Time ∧ Written.Reasoned Period ∧
      (∀ D : Domain, Written.Reasoned (Selector D)) ∧ Written.Reasoned YearSelector ∧
      Written.Reasoned Rule ∧
      (∀ sep : String, Written.ReasonedList Period sep) ∧
      (∀ D : Domain, Written.ReasonedList (Selector D) ",") ∧
      Written.ReasonedList YearSelector "," := by
  refine ⟨?_, ?_, ?_, ?_, ?_, ?_, ?_, ?_⟩
  · exact Visible.reasoned
  · exact Visible.reasoned
  · exact fun _ => Visible.reasoned
  · exact Visible.reasoned
  · exact Visible.reasoned
  · exact Visible.reasonedList
  · exact fun _ => Visible.reasonedList ","
  · exact Visible.reasonedList ","

end Workdays
