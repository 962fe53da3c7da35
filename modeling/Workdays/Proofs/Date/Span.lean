import Workdays.Proofs.Date.Order

/-!
# Spans of dates

The dates from one date to another are listed in order, each once. The last supported date is
missing, since it has no successor to go on with.
-/

namespace Workdays.Date

variable {d x start stop : Date} {n : Nat}

/-- Going on from a date reaches the dates that follow it within a number of days. -/
theorem mem_consecutive_iff :
    x ∈ consecutive n d ↔ d ≤ x ∧ x.dayNumber < d.dayNumber + n ∧ x ≠ last := by
  induction n generalizing d with
  | zero =>
    simp only [consecutive_zero, List.not_mem_nil, le_def, false_iff]
    omega
  | succ n ih =>
    rw [consecutive]
    cases hnext : d.next? with
    | none =>
      obtain rfl := next?_eq_none_iff_eq_last.1 hnext
      simp only [List.not_mem_nil, false_iff]
      rintro ⟨hx, -, hne⟩
      exact hne (le_antisymm x.le_last hx)
    | some next =>
      have hstep := dayNumber_next hnext
      have hlast : d ≠ last := by
        rw [Ne, ← next?_eq_none_iff_eq_last, hnext]
        exact Option.some_ne_none next
      simp only [List.mem_cons, ih, le_def]
      by_cases hx : x = d
      · subst hx
        simp only [true_or, true_iff]
        exact ⟨Int.le_refl _, by omega, hlast⟩
      · have hne : x.dayNumber ≠ d.dayNumber := fun h => hx (eq_of_dayNumber_eq h)
        simp only [hx, false_or, ← and_assoc]
        refine and_congr_left fun _ => ?_
        omega

theorem pairwise_consecutive (n : Nat) (d : Date) : (consecutive n d).Pairwise (· < ·) := by
  induction n generalizing d with
  | zero => exact .nil
  | succ n ih =>
    rw [consecutive]
    cases hnext : d.next? with
    | none => exact .nil
    | some next =>
      have hstep := dayNumber_next hnext
      refine List.pairwise_cons.2 ⟨fun x hx => ?_, ih next⟩
      have hle := le_def.1 (mem_consecutive_iff.1 hx).1
      rw [lt_def]
      omega

theorem mem_between_iff : x ∈ between start stop ↔ start ≤ x ∧ x ≤ stop ∧ x ≠ last := by
  rw [between, mem_consecutive_iff, span, le_def, le_def, ← and_assoc, ← and_assoc]
  refine and_congr_left fun _ => ?_
  omega

theorem pairwise_between (start stop : Date) : (between start stop).Pairwise (· < ·) :=
  pairwise_consecutive _ _

theorem between_eq_nil (h : stop < start) : between start stop = [] := by
  apply List.eq_nil_iff_forall_not_mem.2
  intro x hx
  obtain ⟨hstart, hstop, -⟩ := mem_between_iff.1 hx
  exact not_lt_of_ge (le_trans hstart hstop) h

/-- The dates that are listed in front of a date of a span are those of the span before it. -/
theorem exists_between_eq_append_cons_iff {p : Date → Prop} :
    (∃ front back, between start stop = front ++ d :: back ∧ ∀ x ∈ front, p x) ↔
      (start ≤ d ∧ d ≤ stop ∧ d ≠ last) ∧ ∀ x, start ≤ x → x < d → p x := by
  have hsorted := pairwise_between start stop
  rw [← mem_between_iff]
  constructor
  · intro h
    obtain ⟨front, back, heq, hfront⟩ := h
    have hd : d ∈ between start stop := by simp [heq]
    refine ⟨hd, fun x hx hlt => ?_⟩
    have hmem : x ∈ between start stop := by
      have hstop := (mem_between_iff.1 hd).2.1
      exact mem_between_iff.2 ⟨hx, le_trans hlt.le hstop, ne_of_lt (lt_of_lt_of_le hlt d.le_last)⟩
    rw [heq] at hmem hsorted
    obtain ⟨-, hback, -⟩ := List.pairwise_append.1 hsorted
    obtain hx | rfl | hx := by simpa using hmem
    · exact hfront x hx
    · exact absurd hlt (lt_irrefl x)
    · exact absurd hlt (lt_asymm ((List.pairwise_cons.1 hback).1 x hx))
  · intro h
    obtain ⟨hd, hbefore⟩ := h
    obtain ⟨front, back, heq⟩ := List.append_of_mem hd
    refine ⟨front, back, heq, fun x hx => ?_⟩
    have hmem : x ∈ between start stop := by simp [heq, hx]
    rw [heq] at hsorted
    exact hbefore x (mem_between_iff.1 hmem).1
      ((List.pairwise_append.1 hsorted).2.2 x hx d (by simp))

end Workdays.Date
