import Workdays.Text.Blank

/-!
# Gaps

Gaps are the blanks between the parts of a line. What is left of a text without the blanks at its
front is told by any cut of the text into blanks and a rest that does not start with one.
-/

namespace Workdays.Text

variable {gap cs : List Char} {c : Char}

def IsGap (cs : List Char) : Prop := cs ≠ [] ∧ AllBlank cs

theorem AllBlank.append {as bs : List Char} (ha : AllBlank as) (hb : AllBlank bs) :
    AllBlank (as ++ bs) := by
  intro c hc
  obtain hc | hc := List.mem_append.1 hc
  · exact ha c hc
  · exact hb c hc

theorem not_allBlank_iff : ¬ AllBlank cs ↔ ∃ c ∈ cs, isBlank c = false := by
  simp [AllBlank]

theorem dropBlanks_eq_nil (h : AllBlank cs) : dropBlanks cs = [] := dropBlanks_eq_nil_iff.2 h

theorem dropBlanks_cons_of_not (h : isBlank c = false) : dropBlanks (c :: cs) = c :: cs := by
  rw [dropBlanks_cons, if_neg (by simp [h])]

/-- A text is a gap and what is left of it. -/
theorem exists_eq_append_dropBlanks (cs : List Char) :
    ∃ gap, AllBlank gap ∧ cs = gap ++ dropBlanks cs := by
  refine ⟨cs.takeWhile isBlank, ?_, List.takeWhile_append_dropWhile.symm⟩
  intro c hc
  exact List.all_eq_true.1 List.all_takeWhile c hc

theorem isBlank_of_dropBlanks {rest : List Char} (h : dropBlanks cs = c :: rest) :
    isBlank c = false := by
  have := List.head?_dropWhile_not isBlank cs
  simp_all [dropBlanks]

theorem dropBlanks_dropBlanks (cs : List Char) : dropBlanks (dropBlanks cs) = dropBlanks cs := by
  cases h : dropBlanks cs with
  | nil => rfl
  | cons c rest => exact dropBlanks_cons_of_not (isBlank_of_dropBlanks h)

end Workdays.Text
