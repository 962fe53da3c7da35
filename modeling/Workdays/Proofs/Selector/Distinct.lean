import Workdays.Proofs.Selector.Year

/-!
# Distinct forms

Different selectors have different forms, also where a form cannot be read. Numbers are told apart
by their sign and digits, and the marks between the numbers are no part of one, so the first `..`
and the last `/` stand where they were written. Since a form holds no comma, different lists of
selectors have different forms too.

## Main definitions

* `Distinct`: the class of types whose values have different forms.
-/

namespace Workdays

/-- A type of values of which no two have the same form. -/
class Distinct (α : Type) [Written α] : Prop where
  write_injective : Function.Injective (Written.write : α → List Char)

theorem Distinct.writeList_inj {α : Type} [Written α] [Faithful α] [Distinct α] {as bs : List α}
    (ha : as ≠ []) (hb : bs ≠ []) :
    Written.writeList [','] as = Written.writeList [','] bs ↔ as = bs := by
  refine ⟨fun h => ?_, congrArg _⟩
  have hsegments := Text.segments_iff.1 (Faithful.segments_writeList ha)
  rw [h, Text.segments_iff.1 (Faithful.segments_writeList hb)] at hsegments
  exact (write_injective.list_map hsegments).symm

/-! ## Numbers -/

namespace Text

theorem writeNat_injective : Function.Injective writeNat := by
  intro m n h
  have hm := readNat?_writeNat m
  rw [h, readNat?_writeNat] at hm
  exact (Option.some.inj hm).symm

theorem sign_notMem_writeNat (n : Nat) : '-' ∉ writeNat n := fun h => by
  simpa using (isNumeral_writeNat n).2 '-' h

theorem writeInt_injective : Function.Injective writeInt := by
  intro m n h
  unfold writeInt at h
  split at h <;> split at h
  · have := writeNat_injective (List.cons.inj h).2
    omega
  · exact absurd (h ▸ List.mem_cons_self) (sign_notMem_writeNat n.natAbs)
  · exact absurd (h ▸ List.mem_cons_self) (sign_notMem_writeNat m.natAbs)
  · have := writeNat_injective h
    omega

end Text

/-! ## Bounds -/

namespace Bounds

variable {v : Int32}

theorem writeNumber_injective : Function.Injective writeNumber := by
  intro v w h
  exact Int32.toInt_inj.1 (Text.writeInt_injective h)

theorem dot_notMem_writeNumber (v : Int32) : '.' ∉ writeNumber v := fun h => by
  simpa using isDigit_or_eq_of_mem_writeNumber h

theorem writeOptional_injective : Function.Injective writeOptional := by
  rintro (_ | v) (_ | w) h
  case none.none => rfl
  case some.some => exact congrArg some (writeNumber_injective h)
  case none.some => exact absurd h.symm (writeNumber_ne_nil w)
  case some.none => exact absurd h (writeNumber_ne_nil v)

/-- A form is cut at its dots into the two bounds, and has dots only where these differ. -/
theorem splitFirst?_write (b : Bounds) :
    Text.splitFirst? ['.', '.'] b.write =
      if b.lower = b.upper then none else some (writeOptional b.lower, writeOptional b.upper) := by
  obtain ⟨lower, upper⟩ := b
  by_cases hne : lower = upper
  · subst hne
    rw [if_pos rfl]
    apply Text.splitFirst?_eq_none List.mem_cons_self
    cases lower with
    | none => decide
    | some v => simpa [write] using dot_notMem_writeNumber v
  · have hdot : '.' ∉ writeOptional lower := fun h => by
      simpa using isDigit_or_eq_of_mem_writeOptional h
    rw [if_neg hne, write_eq_writeOptional (by grind) hne, List.append_assoc,
      Text.splitFirst?_append List.mem_cons_self hdot]

theorem star_ne_writeNumber (v : Int32) : ['*'] ≠ writeNumber v := fun h => by
  simpa using isDigit_or_eq_of_mem_writeNumber (c := '*') (h ▸ List.mem_singleton_self _)

theorem write_injective : Function.Injective write := by
  rintro ⟨lower, upper⟩ ⟨lower', upper'⟩ h
  have hcut := congrArg (Text.splitFirst? ['.', '.']) h
  simp only [splitFirst?_write] at hcut
  by_cases heq : lower = upper <;> by_cases heq' : lower' = upper'
  · subst heq heq'
    rcases lower with _ | v <;> rcases lower' with _ | w
    case none.none => rfl
    case none.some => exact absurd h (by simpa [write] using star_ne_writeNumber w)
    case some.none => exact absurd h.symm (by simpa [write] using star_ne_writeNumber v)
    case some.some =>
      simp only [write, if_true] at h
      rw [writeNumber_injective h]
  · simp [heq, heq'] at hcut
  · simp [heq, heq'] at hcut
  · simp only [heq, heq', if_false, Option.some.injEq, Prod.mk.injEq] at hcut
    rw [writeOptional_injective hcut.1, writeOptional_injective hcut.2]

end Bounds

/-! ## Selectors -/

variable {D : Domain}

namespace Interval

/-- An interval is written like some bounds, which the domain completes to those of the interval. -/
theorem exists_write_eq (r : Interval D) :
    ∃ b, r.write = Bounds.write b ∧ r.bounds = D.complete b := by
  by_cases hall : r.IsAll
  · exact ⟨⟨none, none⟩, if_pos hall, hall.trans D.complete_none.symm⟩
  · exact ⟨r.bounds, if_neg hall, r.complete_bounds.symm⟩

theorem write_injective : Function.Injective (write : Interval D → List Char) := by
  intro r s h
  obtain ⟨b, hb, hr⟩ := r.exists_write_eq
  obtain ⟨c, hc, hs⟩ := s.exists_write_eq
  rw [hb, hc] at h
  apply ext
  rw [hr, hs, Bounds.write_injective h]

theorem slash_notMem_write (r : Interval D) : '/' ∉ r.write := fun h => by
  simpa using mem_write h

end Interval

namespace Stride

/-- A form has a slash only if it is that of a stride. -/
theorem write_ne_write (s : Stride D) (r : Interval D) : s.write ≠ r.write :=
  ne_of_mem_of_not_mem' (by simp [write_eq] : '/' ∈ s.write) r.slash_notMem_write

theorem splitFirst?_writeRange (s : Stride D) :
    Text.splitFirst? ['.', '.'] s.writeRange =
      s.last.map fun last => (Bounds.writeNumber s.first, Bounds.writeNumber last) := by
  have hdot := Bounds.dot_notMem_writeNumber s.first
  unfold writeRange
  cases s.last with
  | none => rw [List.append_nil, Text.splitFirst?_eq_none List.mem_cons_self hdot, Option.map_none]
  | some last => rw [Text.splitFirst?_append List.mem_cons_self hdot, Option.map_some]

theorem writeRange_inj {s t : Stride D} (h : s.writeRange = t.writeRange) :
    s.first = t.first ∧ s.last = t.last := by
  have hcut := congrArg (Text.splitFirst? ['.', '.']) h
  rw [splitFirst?_writeRange, splitFirst?_writeRange] at hcut
  unfold writeRange at h
  rcases hs : s.last with _ | v <;> rcases ht : t.last with _ | w <;> simp only [hs, ht] at h hcut
  · simp only [List.append_nil] at h
    exact ⟨Bounds.writeNumber_injective h, rfl⟩
  · cases hcut
  · cases hcut
  · simp only [Option.map_some, Option.some.injEq, Prod.mk.injEq] at hcut
    exact ⟨Bounds.writeNumber_injective hcut.1,
      congrArg some (Bounds.writeNumber_injective hcut.2)⟩

theorem write_injective : Function.Injective (write : Stride D → List Char) := by
  intro s t h
  have hslash (n : Nat) : '/' ∉ Text.writeNat n := fun h => by
    simpa using (Text.isNumeral_writeNat n).2 '/' h
  have hcut := congrArg (Text.splitLast? '/') h
  rw [write_eq, write_eq, Text.splitLast?_append (hslash _), Text.splitLast?_append (hslash _),
    Option.some.injEq, Prod.mk.injEq] at hcut
  obtain ⟨hrange, hperiod⟩ := hcut
  obtain ⟨hfirst, hlast⟩ := writeRange_inj hrange
  exact ext hfirst hlast (UInt32.toNat_inj.1 (Text.writeNat_injective hperiod))

end Stride

instance : Distinct (Selector D) where
  write_injective := by
    rintro (r | s) (r' | s') h
    case interval.interval => exact congrArg Selector.interval (Interval.write_injective h)
    case stride.stride => exact congrArg Selector.stride (Stride.write_injective h)
    case interval.stride => exact absurd h (Stride.write_ne_write s' r).symm
    case stride.interval => exact absurd h (Stride.write_ne_write s r')

namespace YearSelector

theorem write_qualified_ne_interval (q : LeapQualifier) (r s : Interval .years) :
    r.write ++ q.mark ≠ s.write := by
  have hmark : '/' ∈ r.write ++ q.mark := by
    cases q <;> simp [LeapQualifier.mark_leap, LeapQualifier.mark_notLeap]
  exact ne_of_mem_of_not_mem' hmark s.slash_notMem_write

theorem write_qualified_ne_stride (q : LeapQualifier) (r : Interval .years) (s : Stride .years) :
    r.write ++ q.mark ≠ s.write := by
  have hmark : 'p' ∈ r.write ++ q.mark := by
    cases q <;> simp [LeapQualifier.mark_leap, LeapQualifier.mark_notLeap]
  have hstride : 'p' ∉ s.write := fun h => by simpa using Stride.mem_write h
  exact ne_of_mem_of_not_mem' hmark hstride

instance : Distinct YearSelector where
  write_injective := by
    rintro (r | s | ⟨q, r, several⟩) (r' | s' | ⟨q', r', several'⟩) h
    case interval.interval => exact congrArg interval (Interval.write_injective h)
    case stride.stride => exact congrArg stride (Stride.write_injective h)
    case qualified.qualified =>
      obtain ⟨hr, rfl⟩ := LeapQualifier.append_mark_inj h
      obtain rfl := Interval.write_injective hr
      rfl
    case interval.stride => exact absurd h (Stride.write_ne_write s' r).symm
    case stride.interval => exact absurd h (Stride.write_ne_write s r')
    case interval.qualified => exact absurd h (write_qualified_ne_interval q' r' r).symm
    case qualified.interval => exact absurd h (write_qualified_ne_interval q r r')
    case stride.qualified => exact absurd h (write_qualified_ne_stride q' r' s).symm
    case qualified.stride => exact absurd h (write_qualified_ne_stride q r s')

end YearSelector

end Workdays
