import Workdays.Selector.Domain

/-!
# Intervals

An interval selects the values of a domain between two bounds. It is open on a side only where the
domain is, so the interval of all values has the bounds of the domain; it is written `*`.

## Main definitions

* `Interval D`: the intervals of a domain, with the selected values as members.
* `Interval.ofBounds`: the interval between two bounds, either of which may be left out.
-/

namespace Workdays

/-- The values of a domain between two bounds. -/
structure Interval (D : Domain) where
  bounds : Bounds
  lower_mem : ∀ a ∈ bounds.lower, a ∈ D
  upper_mem : ∀ a ∈ bounds.upper, a ∈ D
  lower_open : bounds.lower = none → D.bounds.lower = none
  upper_open : bounds.upper = none → D.bounds.upper = none
  ordered : bounds.Ordered
  deriving DecidableEq

namespace Interval

variable {D : Domain}

instance : Membership Int32 (Interval D) := ⟨fun r v => v ∈ r.bounds⟩

instance (r : Interval D) (v : Int32) : Decidable (v ∈ r) :=
  inferInstanceAs (Decidable (v ∈ r.bounds))

theorem mem_def {r : Interval D} {v : Int32} : v ∈ r ↔ v ∈ r.bounds := Iff.rfl

/-- The interval between two bounds, those of the domain in place of missing ones. The lower bound
is checked first, then the upper bound, then their order. -/
def ofBounds (D : Domain) (b : Bounds) : Except SelectorFault (Interval D) := do
  let c := D.complete b
  let ⟨lower_mem⟩ ← D.check c.lower
  let ⟨upper_mem⟩ ← D.check c.upper
  let ⟨ordered⟩ ← c.check
  return ⟨c, lower_mem, upper_mem, by simp [c, Domain.complete], by simp [c, Domain.complete],
    ordered⟩

def single (D : Domain) (v : Int32) : Except SelectorFault (Interval D) :=
  ofBounds D ⟨some v, some v⟩

def all (D : Domain) : Interval D where
  bounds := D.bounds
  lower_mem a ha := ⟨fun b hb => by simp_all, fun b hb => D.ordered a ha b hb⟩
  upper_mem a ha := ⟨fun b hb => D.ordered b hb a ha, fun b hb => by simp_all⟩
  lower_open := id
  upper_open := id
  ordered := D.ordered

def IsAll (r : Interval D) : Prop := r.bounds = D.bounds

instance (r : Interval D) : Decidable r.IsAll := inferInstanceAs (Decidable (_ = _))

def IsSingle (r : Interval D) : Prop := r.bounds.IsSingle

instance (r : Interval D) : Decidable r.IsSingle := inferInstanceAs (Decidable r.bounds.IsSingle)

/-- The form of the bounds, or `*` for all values of the domain, even where that is one value. -/
def write (r : Interval D) : List Char := if r.IsAll then ['*'] else r.bounds.write

def read? (D : Domain) (cs : List Char) : Option (Interval D) := do
  (ofBounds D (← Bounds.read? cs)).toOption

theorem ext {r s : Interval D} (h : r.bounds = s.bounds) : r = s := by
  cases r; cases s; simp_all

@[simp] theorem bounds_all (D : Domain) : (all D).bounds = D.bounds := rfl

/-- The interval between two bounds is the one that has them, once they are complete. -/
theorem ofBounds_eq_ok_iff {b : Bounds} {r : Interval D} :
    ofBounds D b = .ok r ↔ r.bounds = D.complete b := by
  unfold ofBounds
  constructor
  · intro h
    rcases hl : D.check (D.complete b).lower with e | ⟨_⟩ <;> simp only [hl] at h
    · cases h
    rcases hu : D.check (D.complete b).upper with e | ⟨_⟩ <;> simp only [hu] at h
    · cases h
    rcases ho : (D.complete b).check with e | ⟨_⟩ <;> simp only [ho] at h
    · cases h
    cases h
    rfl
  · intro h
    have hl : ∀ a ∈ (D.complete b).lower, a ∈ D := h ▸ r.lower_mem
    have hu : ∀ a ∈ (D.complete b).upper, a ∈ D := h ▸ r.upper_mem
    have ho : (D.complete b).Ordered := h ▸ r.ordered
    dsimp only
    rw [D.check_eq_ok hl, D.check_eq_ok hu, Bounds.check_eq_ok ho]
    exact congrArg Except.ok (ext h.symm)

end Interval

end Workdays
