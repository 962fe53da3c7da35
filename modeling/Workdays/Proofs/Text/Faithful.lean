import Workdays.Proofs.Text.Gap
import Workdays.Proofs.Text.Segments
import Workdays.Text.Numeral

/-!
# Faithful forms

The form of a value is faithful when it denotes this value or nothing at all. Forms that hold no
blank, no `#` and no comma can be the segments of a field, and a field of faithful forms is faithful
as a whole.

## Main definitions

* `Text.IsPlain`: the texts that can be a segment.
* `Faithful`: the class of types with faithful and plain forms.
-/

namespace Workdays

namespace Text

/-- No blank, no `#` and no comma is in the text. -/
def IsPlain (cs : List Char) : Prop := ∀ c ∈ cs, isBlank c = false ∧ c ≠ '#' ∧ c ≠ ','

instance (cs : List Char) : Decidable (IsPlain cs) := List.decidableBAll _ cs

theorem IsPlain.append {as bs : List Char} (ha : IsPlain as) (hb : IsPlain bs) :
    IsPlain (as ++ bs) := by
  intro c hc
  obtain hc | hc := List.mem_append.1 hc
  · exact ha c hc
  · exact hb c hc

theorem IsPlain.cons {c : Char} {cs : List Char} (hc : IsPlain [c]) (h : IsPlain cs) :
    IsPlain (c :: cs) :=
  hc.append h

theorem IsPlain.notMem {c : Char} {cs : List Char} (h : IsPlain cs) (hblank : isBlank c) :
    c ∉ cs := by
  intro hc
  rw [(h c hc).1] at hblank
  cases hblank

theorem IsPlain.not_allBlank {cs : List Char} (h : IsPlain cs) (hne : cs ≠ []) :
    ¬ AllBlank cs := by
  obtain ⟨c, hc⟩ := List.exists_mem_of_ne_nil cs hne
  exact not_allBlank_iff.2 ⟨c, hc, (h c hc).1⟩

theorem isPlain_of_isDigit_or_mem {marks cs : List Char} (hm : IsPlain marks)
    (h : ∀ c ∈ cs, c.isDigit ∨ c ∈ marks) : IsPlain cs := by
  intro c hc
  obtain hd | hc := h c hc
  · refine ⟨isBlank_eq_false_of_isDigit hd, ?_, ?_⟩ <;>
    · rintro rfl
      simp at hd
  · exact hm c hc

theorem IsNumeral.isPlain {cs : List Char} (h : IsNumeral cs) : IsPlain cs := by
  have hm : IsPlain [] := nofun
  exact isPlain_of_isDigit_or_mem hm fun c hc => .inl (h.2 c hc)

end Text

/-- A type of values whose forms are plain and denote, if anything, the value that was written. -/
class Faithful (α : Type) [Written α] where
  /-- The form of the value denotes it. -/
  IsLegible : α → Prop
  write_ne_nil (a : α) : Written.write a ≠ []
  isPlain_write (a : α) : Text.IsPlain (Written.write a)
  read?_write_eq_some_iff {a b : α} :
    Written.read? (Written.write a) = some b ↔ IsLegible a ∧ b = a
  isLegible_of_read? {cs : List Char} {a : α} : Written.read? cs = some a → IsLegible a

namespace Faithful

variable {α : Type} [Written α] [Faithful α] {as bs : List α}

theorem forall₂_read?_write_iff :
    List.Forall₂ (fun a b => Written.read? (Written.write a) = some b) as bs ↔
      (∀ a ∈ as, IsLegible a) ∧ bs = as := by
  induction as generalizing bs with
  | nil => simp
  | cons a as ih =>
    simp only [List.forall₂_cons_left_iff, ih]
    simp only [read?_write_eq_some_iff, List.forall_mem_cons]
    constructor
    · intro h
      obtain ⟨b, bs, ⟨ha, rfl⟩, ⟨has, rfl⟩, rfl⟩ := h
      exact ⟨⟨ha, has⟩, rfl⟩
    · intro h
      obtain ⟨⟨ha, has⟩, rfl⟩ := h
      exact ⟨a, as, ⟨ha, rfl⟩, ⟨has, rfl⟩, rfl⟩

theorem segments_writeList (h : as ≠ []) :
    Text.Segments ',' (as.map Written.write) (Written.writeList [','] as) := by
  refine ⟨by simpa using h, ?_, rfl⟩
  intro segment hs hc
  obtain ⟨a, -, rfl⟩ := List.mem_map.1 hs
  exact (isPlain_write a ',' hc).2.2 rfl

/-- The form of a list that is not empty denotes the list, if all its values are legible. -/
theorem lists_writeList_iff (h : as ≠ []) :
    Written.Lists (Written.writeList [','] as) bs ↔ (∀ a ∈ as, IsLegible a) ∧ bs = as := by
  have hsegments := Text.segments_iff.1 (segments_writeList h)
  simp only [Written.Lists, Text.segments_iff, hsegments, exists_eq_left']
  rw [List.forall₂_map_left_iff, forall₂_read?_write_iff]

/-- The text of a value is read as this value or not at all. -/
theorem parse?_text [DecidablePred (IsLegible : α → Prop)] (a : α) :
    parse? α (Written.text a) = if IsLegible a then some a else none := by
  ext b
  rw [parse?, Written.toList_text, read?_write_eq_some_iff]
  split
  · next ha => rw [and_iff_right ha, Option.some.injEq, eq_comm]
  · next hnot => simp only [hnot, false_and, reduceCtorEq]

/-- The text of a list is read as this list or not at all. -/
theorem parseList?_writeList [DecidablePred (IsLegible : α → Prop)] (h : as ≠ []) :
    parseList? α "," (String.ofList (Written.writeList [','] as)) =
      if ∀ a ∈ as, IsLegible a then some as else none := by
  ext bs
  -- the comma is the first text that is turned into a list, and the form the second
  rw [parseList?, String.toList_ofList, String.toList_ofList, Written.readList?_eq_some_iff,
    lists_writeList_iff h]
  split
  · next hall => rw [and_iff_right hall, Option.some.injEq, eq_comm]
  · next hnot => simp only [hnot, false_and, reduceCtorEq]

theorem isLegible_of_lists {cs : List Char} (h : Written.Lists cs as) :
    ∀ a ∈ as, IsLegible a := by
  obtain ⟨segments, -, hread⟩ := h
  induction hread with
  | nil => simp
  | cons hread _ ih => exact List.forall_mem_cons.2 ⟨isLegible_of_read? hread, ih⟩

/-- The forms of a list, with commas between them, hold neither a blank nor a `#`. -/
theorem of_mem_writeList {c : Char} (h : c ∈ Written.writeList [','] as) :
    Text.isBlank c = false ∧ c ≠ '#' := by
  obtain hcomma | ⟨a, -, ha⟩ := Written.mem_of_mem_writeList h
  · rw [List.mem_singleton.1 hcomma]
    decide
  · obtain ⟨hblank, hhash, -⟩ := isPlain_write a c ha
    exact ⟨hblank, hhash⟩

theorem writeList_ne_nil (h : as ≠ []) : Written.writeList [','] as ≠ [] := by
  cases as with
  | nil => contradiction
  | cons a as =>
    cases as with
    | nil => simpa [Written.writeList_singleton] using write_ne_nil a
    | cons b as => simp [Written.writeList_cons_cons]

end Faithful

end Workdays
