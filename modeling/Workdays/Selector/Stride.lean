import Workdays.Selector.Domain

/-!
# Strides

A stride selects every so many values, from a first one up to a last one or without end. The form
is `A/P`, or `A..B/P` with a last value, where the period `P` is the distance between two values.

## Main definitions

* `Stride D`: the strides that start in a domain, with the selected values as members.
* `Stride.ofBounds`: the stride of a first and a last value and a period.
-/

namespace Workdays

/-- One value of every so many. -/
structure Stride (D : Domain) where
  first : Int32
  last : Option Int32
  period : UInt32
  period_ne_zero : period ≠ 0
  first_mem : first ∈ D
  last_mem : ∀ a ∈ last, a ∈ D
  ordered : Bounds.Ordered ⟨some first, last⟩
  deriving DecidableEq

namespace Stride

variable {D : Domain}

def bounds (s : Stride D) : Bounds := ⟨some s.first, s.last⟩

instance : Membership Int32 (Stride D) :=
  ⟨fun s v => v ∈ s.bounds ∧ (s.period.toNat : Int) ∣ v.toInt - s.first.toInt⟩

instance (s : Stride D) (v : Int32) : Decidable (v ∈ s) := inferInstanceAs (Decidable (_ ∧ _))

theorem mem_def {s : Stride D} {v : Int32} :
    v ∈ s ↔ v ∈ s.bounds ∧ (s.period.toNat : Int) ∣ v.toInt - s.first.toInt := Iff.rfl

/-- The stride of a first and a last value and a period. The period is checked first, then the
values, then their order. -/
def ofBounds (D : Domain) (first : Int32) (last : Option Int32) (period : UInt32) :
    Except SelectorFault (Stride D) :=
  if hp : period = 0 then .error .zeroStep else do
    let ⟨first_mem⟩ ← D.check (some first)
    let ⟨last_mem⟩ ← D.check last
    let ⟨ordered⟩ ← Bounds.check ⟨some first, last⟩
    return ⟨first, last, period, hp, first_mem first rfl, last_mem, ordered⟩

def IsSingle (s : Stride D) : Prop := s.bounds.IsSingle

instance (s : Stride D) : Decidable s.IsSingle := inferInstanceAs (Decidable s.bounds.IsSingle)

/-- The form `A/P` or `A..B/P`. -/
def write (s : Stride D) : List Char :=
  Bounds.writeNumber s.first
    ++ (match s.last with
        | none => []
        | some last => ['.', '.'] ++ Bounds.writeNumber last)
    ++ '/' :: Text.writeNat s.period.toNat

/-- Reads `A/P`, `A../P` or `A..B/P`. -/
def read? (D : Domain) (cs : List Char) : Option (Stride D) := do
  let (range, period) ← Text.splitLast? '/' cs
  let period ← Bounds.readNumber? period
  let (first, last) ←
    match Text.splitFirst? ['.', '.'] range with
    | none => (Bounds.readNumber? range).map fun first => (first, none)
    | some (first, last) => do
      let first ← Bounds.readNumber? first
      let last ← Bounds.readOptional? last
      some (first, last)
  (ofBounds D first last period.toUInt32).toOption

theorem ext {s t : Stride D} (hf : s.first = t.first) (hl : s.last = t.last)
    (hp : s.period = t.period) : s = t := by
  cases s; cases t; simp_all

/-- The first value is selected. -/
theorem first_mem_self (s : Stride D) : s.first ∈ s := by
  refine ⟨⟨fun a ha => ?_, fun a ha => s.ordered _ rfl a ha⟩, by simp⟩
  rw [Option.mem_some_iff.1 ha]
  exact Int32.le_refl _

/-- The stride of given values is the one that has them, unless the period is zero. -/
theorem ofBounds_eq_ok_iff {first : Int32} {last : Option Int32} {period : UInt32}
    {s : Stride D} :
    ofBounds D first last period = .ok s ↔
      s.first = first ∧ s.last = last ∧ s.period = period := by
  unfold ofBounds
  constructor
  · intro h
    split at h
    · cases h
    rcases hf : D.check (some first) with e | ⟨_⟩ <;> simp only [hf] at h
    · cases h
    rcases hl : D.check last with e | ⟨_⟩ <;> simp only [hl] at h
    · cases h
    rcases ho : Bounds.check ⟨some first, last⟩ with e | ⟨_⟩ <;> simp only [ho] at h
    · cases h
    cases h
    exact ⟨rfl, rfl, rfl⟩
  · rintro ⟨rfl, rfl, rfl⟩
    have hf : ∀ a ∈ some s.first, a ∈ D := fun a ha => Option.mem_some_iff.1 ha ▸ s.first_mem
    rw [dif_neg s.period_ne_zero, D.check_eq_ok hf, D.check_eq_ok s.last_mem,
      Bounds.check_eq_ok s.ordered]
    rfl

end Stride

end Workdays
