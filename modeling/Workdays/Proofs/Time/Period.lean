import Workdays.Proofs.Text.Faithful
import Workdays.Rule.Description
import Workdays.Time.Period

/-!
# Forms of periods

Every period is read back from its form. What is read as a period, or as a list of them, starts in
the way by which the end of a description is told.
-/

namespace Workdays

namespace Time

theorem isDigit_of_read? {h₁ h₂ colon m₁ m₂ : Char} {t : Time}
    (h : read? [h₁, h₂, colon, m₁, m₂] = some t) :
    colon = ':' ∧ h₁.isDigit ∧ h₂.isDigit ∧ m₁.isDigit ∧ m₂.isDigit := by
  unfold read? at h
  split at h
  · next heq =>
    cases heq
    simp only [Option.bind_eq_bind, Option.bind_eq_some_iff] at h
    obtain ⟨hour, hhour, minute, hminute, -⟩ := h
    obtain ⟨d₁, d₂⟩ := Text.isDigit_of_readNat? hhour
    exact ⟨rfl, d₁, d₂, Text.isDigit_of_readNat? hminute⟩
  · cases h

theorem mem_write {t : Time} {c : Char} (h : c ∈ t.write) : c.isDigit ∨ c = ':' := by
  have hpadded (n : Nat) := (Text.isNumeral_writePadded 2 n).2 c
  rw [write, writeHourMinute] at h
  grind

end Time

namespace Period

variable {cs : List Char} {p : Period} {periods : List Period}

theorem startsPeriod_of_read? (h : read? cs = some p) (rest : List Char) :
    Description.startsPeriod (cs ++ rest) = true := by
  unfold read? at h
  split at h
  · simp only [Option.bind_eq_bind, Option.bind_eq_some_iff] at h
    obtain ⟨start, hstart, -⟩ := h
    obtain ⟨rfl, d₁, d₂, d₃, d₄⟩ := Time.isDigit_of_read? hstart
    simp [Description.startsPeriod, d₁, d₂, d₃, d₄]
  · cases h

/-- A text that denotes periods starts with the first segment between its commas. -/
theorem startsPeriod_of_lists (h : Written.Lists cs periods) :
    Description.startsPeriod cs = true := by
  obtain ⟨segments, ⟨hne, -, rfl⟩, hread⟩ := h
  cases hread with
  | nil => contradiction
  | @cons segment p segments _ hp _ =>
    cases segments with
    | nil => simpa [List.intercalate] using startsPeriod_of_read? hp []
    | cons =>
      rw [Text.intercalate_cons (by simp), List.append_assoc]
      exact startsPeriod_of_read? hp _

theorem mem_write {c : Char} (h : c ∈ p.write) : c.isDigit ∨ c ∈ [':', '-'] := by
  have hstart := @Time.mem_write p.start c
  have hstop := @Time.mem_write p.stop c
  rw [write] at h
  grind

instance : Faithful Period where
  IsLegible _ := True
  write_ne_nil p := by simp [Written.write, write]
  isPlain_write _ := Text.isPlain_of_isDigit_or_mem (by decide) fun _ => mem_write
  read?_write_eq_some_iff := by
    intro p q
    change read? p.write = some q ↔ _
    simp [eq_comm]
  isLegible_of_read? _ := trivial

end Period

end Workdays
