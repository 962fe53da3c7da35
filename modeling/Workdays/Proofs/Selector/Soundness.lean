import Workdays.Proofs.Selector.Single

/-!
# The numbers of selectors

A selector is made of numbers that are checked, of the bounds of its domain, or from a text. Whichever
way it is made in, its numbers are sound: they lie in the domain and are in order, a bound is missing
only where the domain is open, a period is not zero, and what is qualified is more than one year. All
sound numbers are those of a selector, and except for qualified years every selector selects a value
of its domain.

## Main definitions

* `Interval.IsMade`, `Stride.IsMade`, `Selector.IsMade`, `YearSelector.IsMade`: the ways in which
  selectors are made.
* `Numbers`: what a selector is made of, with the sound numbers `Numbers.IsSound` of a domain.
-/

namespace Workdays

variable {D : Domain} {b : Bounds} {first : Int32} {last : Option Int32} {period : UInt32}

/-! ## Checked numbers -/

/-- An interval is made of bounds when they pass the checks once they are complete. -/
theorem Interval.exists_ofBounds_eq_ok_iff :
    (∃ r, ofBounds D b = .ok r) ↔ (D.complete b).FitIn D := by
  simp only [ofBounds_eq_ok_iff]
  constructor
  · intro h
    obtain ⟨r, hr⟩ := h
    rw [← hr]
    exact ⟨r.lower_mem, r.upper_mem, r.ordered⟩
  · intro h
    exact ⟨⟨D.complete b, h.lower_mem, h.upper_mem, by simp [Domain.complete],
      by simp [Domain.complete], h.ordered⟩, rfl⟩

/-- A stride is made of values that pass the checks as they are, and of a period. -/
theorem Stride.exists_ofBounds_eq_ok_iff :
    (∃ s, ofBounds D first last period = .ok s) ↔
      0 < period ∧ Bounds.FitIn ⟨some first, last⟩ D := by
  have hpos : 0 < period ↔ period ≠ 0 := by
    rw [UInt32.lt_iff_toNat_lt, ← UInt32.toNat_inj.ne, UInt32.toNat_zero]
    omega
  simp only [ofBounds_eq_ok_iff, hpos]
  constructor
  · rintro ⟨s, rfl, rfl, rfl⟩
    refine ⟨s.period_ne_zero, ?_, s.last_mem, s.ordered⟩
    rintro _ ⟨⟩
    exact s.first_mem
  · rintro ⟨hperiod, hfirst, hlast, hordered⟩
    exact ⟨⟨first, last, period, hperiod, hfirst first rfl, hlast, hordered⟩, rfl, rfl, rfl⟩

/-! ## The ways of making -/

/-- The interval is made of bounds or of one value, has all values, or is read. -/
inductive Interval.IsMade : Interval D → Prop
  | ofBounds {b : Bounds} {r : Interval D} : Interval.ofBounds D b = .ok r → IsMade r
  | single {v : Int32} {r : Interval D} : Interval.single D v = .ok r → IsMade r
  | all : IsMade (.all D)
  | read {cs : List Char} {r : Interval D} : Interval.read? D cs = some r → IsMade r

/-- The stride is made of values and a period, or is read. -/
inductive Stride.IsMade : Stride D → Prop
  | ofBounds {first : Int32} {last : Option Int32} {period : UInt32} {s : Stride D} :
      Stride.ofBounds D first last period = .ok s → IsMade s
  | read {cs : List Char} {s : Stride D} : Stride.read? D cs = some s → IsMade s

/-- The selector is an interval or a stride, or is made like one, also of two days of the week. -/
inductive Selector.IsMade : {D : Domain} → Selector D → Prop
  | interval {D : Domain} {r : Interval D} : r.IsMade → IsMade (.interval r)
  | stride {D : Domain} {s : Stride D} : s.IsMade → IsMade (.stride s)
  | ofInterval {D : Domain} {b : Bounds} {s : Selector D} :
      Selector.ofInterval D b = .ok s → IsMade s
  | ofStride {D : Domain} {first : Int32} {last : Option Int32} {period : UInt32}
      {s : Selector D} : Selector.ofStride D first last period = .ok s → IsMade s
  | ofWeekdays {first last : Fin 7} {s : Selector .daysOfWeek} :
      Selector.ofWeekdays first last = .ok s → IsMade s
  | all {D : Domain} : IsMade (.all D)
  | read {D : Domain} {cs : List Char} {s : Selector D} : Selector.read? D cs = some s → IsMade s

/-- The selector of years is an interval or a stride, or is made like one, or of bounds that are
qualified. -/
inductive YearSelector.IsMade : YearSelector → Prop
  | interval {r : Interval .years} : r.IsMade → IsMade (.interval r)
  | stride {s : Stride .years} : s.IsMade → IsMade (.stride s)
  | ofInterval {b : Bounds} {s : YearSelector} : YearSelector.ofInterval b = .ok s → IsMade s
  | ofStride {first : Int32} {last : Option Int32} {period : UInt32} {s : YearSelector} :
      YearSelector.ofStride first last period = .ok s → IsMade s
  | ofQualified {q : LeapQualifier} {b : Bounds} {s : YearSelector} :
      YearSelector.ofQualified q b = .ok s → IsMade s
  | all : IsMade .all
  | read {cs : List Char} {s : YearSelector} : YearSelector.read? cs = some s → IsMade s

/-! ## Sound numbers -/

/-- The bounds of an interval, or the first and the last value and the period of a stride. -/
inductive Numbers where
  | interval (b : Bounds)
  | stride (first : Int32) (last : Option Int32) (period : UInt32)
  deriving DecidableEq

/-- The numbers lie in the domain and are in order, a bound of an interval is missing only where
that of the domain is, and a period is not zero. -/
inductive Numbers.IsSound (D : Domain) : Numbers → Prop
  | interval {b : Bounds} : b.FitIn D → (b.lower = none → D.bounds.lower = none) →
      (b.upper = none → D.bounds.upper = none) → IsSound D (.interval b)
  | stride {first : Int32} {last : Option Int32} {period : UInt32} : 0 < period →
      Bounds.FitIn ⟨some first, last⟩ D → IsSound D (.stride first last period)

theorem Interval.exists_bounds_eq_iff :
    (∃ r : Interval D, r.bounds = b) ↔ (Numbers.interval b).IsSound D := by
  constructor
  · rintro ⟨r, rfl⟩
    exact .interval ⟨r.lower_mem, r.upper_mem, r.ordered⟩ r.lower_open r.upper_open
  · rintro ⟨hfit, hlower, hupper⟩
    exact ⟨⟨b, hfit.lower_mem, hfit.upper_mem, hlower, hupper, hfit.ordered⟩, rfl⟩

theorem Stride.exists_first_eq_iff :
    (∃ s : Stride D, s.first = first ∧ s.last = last ∧ s.period = period) ↔
      (Numbers.stride first last period).IsSound D := by
  simp only [← ofBounds_eq_ok_iff, exists_ofBounds_eq_ok_iff]
  constructor
  · rintro ⟨hperiod, hfit⟩
    exact .stride hperiod hfit
  · rintro ⟨⟩
    exact ⟨‹_›, ‹_›⟩

/-- Every interval can be made of the bounds that it has. -/
theorem Interval.isMade (r : Interval D) : r.IsMade :=
  .ofBounds (ofBounds_eq_ok_iff.2 r.complete_bounds.symm)

theorem Stride.isMade (s : Stride D) : s.IsMade := .ofBounds (ofBounds_eq_ok_iff.2 ⟨rfl, rfl, rfl⟩)

namespace Selector

/-- The numbers that the selector is made of. -/
def numbers : Selector D → Numbers
  | .interval r => .interval r.bounds
  | .stride s => .stride s.first s.last s.period

theorem exists_isMade_iff {n : Numbers} :
    (∃ s : Selector D, s.IsMade ∧ s.numbers = n) ↔ n.IsSound D := by
  constructor
  · rintro ⟨r | s, -, rfl⟩
    · exact Interval.exists_bounds_eq_iff.1 ⟨r, rfl⟩
    · exact Stride.exists_first_eq_iff.1 ⟨s, rfl, rfl, rfl⟩
  · intro h
    cases n with
    | interval b =>
      obtain ⟨r, rfl⟩ := Interval.exists_bounds_eq_iff.2 h
      exact ⟨.interval r, .interval r.isMade, rfl⟩
    | stride first last period =>
      obtain ⟨s, rfl, rfl, rfl⟩ := Stride.exists_first_eq_iff.2 h
      exact ⟨.stride s, .stride s.isMade, rfl⟩

/-- The least value of an interval and the first value of a stride are selected. -/
theorem exists_mem (s : Selector D) : ∃ v ∈ D, v ∈ s := by
  cases s with
  | interval r =>
    have hle := Bounds.least_le_greatest r.ordered
    exact ⟨r.bounds.least, Interval.mem_domain_and_iff.2 ⟨Int32.le_refl _, hle⟩⟩
  | stride s => exact ⟨s.first, s.first_mem, s.first_mem_self⟩

end Selector

namespace YearSelector

/-- The numbers that the selector is made of. -/
def numbers : YearSelector → Numbers
  | .interval r => .interval r.bounds
  | .stride s => .stride s.first s.last s.period
  | .qualified _ r _ => .interval r.bounds

/-- Whether the years that are selected are leap years, or are not, if this is told. -/
def qualifier? : YearSelector → Option LeapQualifier
  | .interval _ => none
  | .stride _ => none
  | .qualified q _ _ => some q

variable {q : LeapQualifier} {r : Interval .years}

theorem isMade_qualified (several : ¬ r.IsSingle) : (qualified q r several).IsMade := by
  apply IsMade.ofQualified (q := q) (b := r.bounds)
  rw [ofQualified, bind_eq_ok_iff]
  exact ⟨r, Interval.ofBounds_eq_ok_iff.2 r.complete_bounds.symm, dif_neg several⟩

theorem exists_isMade_iff {q : Option LeapQualifier} {n : Numbers} :
    (∃ s : YearSelector, s.IsMade ∧ s.qualifier? = q ∧ s.numbers = n) ↔
      n.IsSound .years ∧ (q = none ∨ ∃ b, n = .interval b ∧ ¬ b.IsSingle) := by
  constructor
  · rintro ⟨r | s | ⟨q, r, several⟩, -, rfl, rfl⟩
    · exact ⟨Interval.exists_bounds_eq_iff.1 ⟨r, rfl⟩, .inl rfl⟩
    · exact ⟨Stride.exists_first_eq_iff.1 ⟨s, rfl, rfl, rfl⟩, .inl rfl⟩
    · exact ⟨Interval.exists_bounds_eq_iff.1 ⟨r, rfl⟩, .inr ⟨r.bounds, rfl, several⟩⟩
  · rintro ⟨hsound, hq⟩
    cases q with
    | none =>
      cases n with
      | interval b =>
        obtain ⟨r, rfl⟩ := Interval.exists_bounds_eq_iff.2 hsound
        exact ⟨.interval r, .interval r.isMade, rfl, rfl⟩
      | stride first last period =>
        obtain ⟨s, rfl, rfl, rfl⟩ := Stride.exists_first_eq_iff.2 hsound
        exact ⟨.stride s, .stride s.isMade, rfl, rfl⟩
    | some q =>
      obtain ⟨b, rfl, several⟩ := hq.resolve_left nofun
      obtain ⟨r, rfl⟩ := Interval.exists_bounds_eq_iff.2 hsound
      exact ⟨.qualified q r several, isMade_qualified several, rfl, rfl⟩

theorem exists_mem {s : YearSelector} (h : s.qualifier? = none) : ∃ v ∈ Domain.years, v ∈ s := by
  cases s with
  | interval r => exact Selector.exists_mem (.interval r)
  | stride s => exact Selector.exists_mem (.stride s)
  | qualified => cases h

end YearSelector

/-! ## The selectors that are made -/

/-- An interval is made of bounds that are in the domain and in order once the missing ones are taken
from the domain, and a stride of values that are so as they are and of a period that is not zero.
Whichever way a selector is made in, its numbers are sound, and all sound numbers are those of one;
with a qualifier, all but those of a single year. But for qualified years, each selector selects
a value of its domain. -/
theorem numbers_are_sound :
    (∀ (D : Domain) (b : Bounds),
      (∃ r, Interval.ofBounds D b = .ok r) ↔ (D.complete b).FitIn D) ∧
    (∀ (D : Domain) (first : Int32) (last : Option Int32) (period : UInt32),
      (∃ s, Stride.ofBounds D first last period = .ok s) ↔
        0 < period ∧ Bounds.FitIn ⟨some first, last⟩ D) ∧
    (∀ (D : Domain) (n : Numbers),
      (∃ s : Selector D, s.IsMade ∧ s.numbers = n) ↔ n.IsSound D) ∧
    (∀ (q : Option LeapQualifier) (n : Numbers),
      (∃ s : YearSelector, s.IsMade ∧ s.qualifier? = q ∧ s.numbers = n) ↔
        n.IsSound .years ∧ (q = none ∨ ∃ b, n = .interval b ∧ ¬ b.IsSingle)) ∧
    (∀ (D : Domain) (s : Selector D), ∃ v ∈ D, v ∈ s) ∧
    ∀ s : YearSelector, s.qualifier? = none → ∃ v ∈ Domain.years, v ∈ s :=
  ⟨fun _ _ => Interval.exists_ofBounds_eq_ok_iff, fun _ _ _ _ => Stride.exists_ofBounds_eq_ok_iff,
    fun _ _ => Selector.exists_isMade_iff, fun _ _ => YearSelector.exists_isMade_iff,
    fun _ s => s.exists_mem, fun _ h => YearSelector.exists_mem h⟩

/-- In a domain that is open above only, an interval takes its lower bound from the domain. Bounds
below the domain, a stride that does not move and a single leap year are refused. -/
theorem numbers_are_sound_half_open :
    ∃ D : Domain, D.bounds = ⟨some 3, none⟩ ∧
      (∃ r, Interval.ofBounds D ⟨none, some 5⟩ = .ok r) ∧
      (¬ ∃ r, Interval.ofBounds D ⟨none, some 2⟩ = .ok r) ∧
      (¬ ∃ s, Stride.ofBounds D 3 none 0 = .ok s) ∧
      (∃ s : Selector D, s.IsMade ∧ s.numbers = .interval ⟨some 3, none⟩) ∧
      (¬ ∃ s : Selector D, s.IsMade ∧ s.numbers = .interval ⟨none, some 5⟩) ∧
      (¬ ∃ s : YearSelector, s.IsMade ∧ s.qualifier? = some .leap ∧
        s.numbers = .interval ⟨some 2024, some 2024⟩) ∧
      ∃ s : YearSelector, s.qualifier? = none ∧ s.numbers = .stride 2024 (some 2030) 4 ∧
        ∃ v ∈ Domain.years, v ∈ s := by
  obtain ⟨hinterval, hstride, hselector, hyears, -, hmem⟩ := numbers_are_sound
  let D : Domain := ⟨"natural", ⟨some 3, none⟩, by decide⟩
  have hfive : (D.complete ⟨none, some 5⟩).FitIn D :=
    ⟨by rintro _ ⟨⟩; decide, by rintro _ ⟨⟩; decide, by decide⟩
  have htwo : ¬ (D.complete ⟨none, some 2⟩).FitIn D := fun h => absurd h.ordered (by decide)
  have hopen : (Numbers.interval ⟨some 3, none⟩).IsSound D :=
    .interval ⟨by rintro _ ⟨⟩; decide, nofun, by decide⟩ (by decide) (by decide)
  have hclosed : ¬ (Numbers.interval ⟨none, some 5⟩).IsSound D := by
    rintro ⟨-, hlower, -⟩
    exact absurd (hlower rfl) (by decide)
  have hzero : ¬ (0 < (0 : UInt32) ∧ Bounds.FitIn ⟨some 3, none⟩ D) :=
    fun h => absurd h.1 (by decide)
  refine ⟨D, rfl, (hinterval D _).2 hfive, mt (hinterval D _).1 htwo, mt (hstride D _ _ _).1 hzero,
    (hselector D _).2 hopen, mt (hselector D _).1 hclosed, ?_, ?_⟩
  · rw [hyears]
    rintro ⟨-, hnone | ⟨b, hb, hseveral⟩⟩
    · cases hnone
    · cases hb
      exact hseveral (by decide)
  · have hfit : Bounds.FitIn ⟨some 2024, some 2030⟩ .years :=
      ⟨by rintro _ ⟨⟩; decide, by rintro _ ⟨⟩; decide, by decide⟩
    have hsound : (Numbers.stride 2024 (some 2030) 4).IsSound .years := .stride (by decide) hfit
    obtain ⟨s, -, hnone, hnumbers⟩ := (hyears none _).2 ⟨hsound, .inl rfl⟩
    exact ⟨s, hnone, hnumbers, hmem s hnone⟩

end Workdays
