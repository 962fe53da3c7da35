import Mathlib.Algebra.Order.Interval.Finset.SuccPred
import Mathlib.Data.Int.ConditionallyCompleteOrder
import Mathlib.Data.Int.Interval
import Mathlib.Data.Int.SuccPred
import Workdays.Proofs.Selector.Grammar

/-!
# Selectors of one value

A selector is called single for its bounds alone, when both are given and equal. Such a selector
selects one value of its domain, but it is not the only kind that does. A stride can end before its
second value, an interval can be open at the end of the numbers, and an interval of several years
can hold one leap year, or one other year.

## Main definitions

* `SelectsOne`: one value of the domain is selected, and no other.
* `Selector.IsOverlooked`, `YearSelector.IsOverlooked`: the selectors of one value that are not
  called single.
-/

namespace Workdays

variable {D : Domain} {b : Bounds} {v : Int32}

/-- One value of the domain is selected, and no other. -/
def SelectsOne {σ : Type} [Membership Int32 σ] (D : Domain) (s : σ) : Prop := ∃! v, v ∈ D ∧ v ∈ s

/-! ## The ends of bounds -/

namespace Bounds

def least (b : Bounds) : Int32 := b.lower.getD Int32.minValue

def greatest (b : Bounds) : Int32 := b.upper.getD Int32.maxValue

theorem mem_iff_least_le_and_le_greatest : v ∈ b ↔ b.least ≤ v ∧ v ≤ b.greatest := by
  obtain ⟨_ | lower, _ | upper⟩ := b <;>
    simp [mem_def, least, greatest, Int32.minValue_le, Int32.le_maxValue]

theorem least_le_greatest (h : b.Ordered) : b.least ≤ b.greatest := by
  obtain ⟨_ | lower, _ | upper⟩ := b
  case some.some => exact h lower rfl upper rfl
  all_goals simp [least, greatest, Int32.minValue_le, Int32.le_maxValue]

/-- One value between the bounds has a property when one integer does. -/
theorem existsUnique_mem_iff {P : Int → Prop} :
    (∃! v, v ∈ b ∧ P v.toInt) ↔ ∃! n, (b.least.toInt ≤ n ∧ n ≤ b.greatest.toInt) ∧ P n := by
  have hofInt {n : Int} (h : b.least.toInt ≤ n ∧ n ≤ b.greatest.toInt) :
      (Int32.ofInt n).toInt = n := by
    have := b.least.le_toInt
    have := b.greatest.toInt_lt
    exact Int32.toInt_ofInt_of_le (by omega) (by omega)
  simp only [mem_iff_least_le_and_le_greatest, Int32.le_iff_toInt_le]
  constructor
  · intro h
    obtain ⟨v, hv, hunique⟩ := h
    refine ⟨v.toInt, hv, fun n hn => ?_⟩
    rw [← hunique (Int32.ofInt n) (by simpa only [hofInt hn.1] using hn), hofInt hn.1]
  · intro h
    obtain ⟨n, hn, hunique⟩ := h
    refine ⟨Int32.ofInt n, by simpa only [hofInt hn.1] using hn, fun v hv => ?_⟩
    rw [← Int32.toInt_inj, hofInt hn.1, hunique v.toInt hv]

/-- The values between bounds are values of the domain if the bounds are, and are missing only where
those of the domain are. -/
theorem mem_domain_of_mem (hlower : ∀ a ∈ b.lower, a ∈ D) (hupper : ∀ a ∈ b.upper, a ∈ D)
    (hopen : b.lower = none → D.bounds.lower = none)
    (hopen' : b.upper = none → D.bounds.upper = none) (hv : v ∈ b) : v ∈ D := by
  constructor
  · intro a ha
    cases hb : b.lower with
    | none => simp [hopen hb] at ha
    | some l => exact Int32.le_trans ((hlower l hb).1 a ha) (hv.1 l hb)
  · intro a ha
    cases hb : b.upper with
    | none => simp [hopen' hb] at ha
    | some u => exact Int32.le_trans (hv.2 u hb) ((hupper u hb).2 a ha)

/-- The values of a domain between bounds that fit in it are those between the complete bounds. -/
theorem FitIn.mem_complete_iff (h : b.FitIn D) : v ∈ D.complete b ↔ v ∈ D ∧ v ∈ b := by
  have hfit := Domain.fitIn_complete h
  constructor
  · intro hv
    have hD : v ∈ D := mem_domain_of_mem hfit.lower_mem hfit.upper_mem
      (by simp [Domain.complete]) (by simp [Domain.complete]) hv
    exact ⟨hD, (Domain.mem_complete_iff hD).1 hv⟩
  · intro hv
    exact (Domain.mem_complete_iff hv.1).2 hv.2

end Bounds

/-! ## Intervals -/

namespace Interval

variable {r : Interval D}

/-- The interval is open on one side, and the numbers end at its bound on the other. -/
def IsOverlooked (r : Interval D) : Prop :=
  r.bounds = ⟨some Int32.maxValue, none⟩ ∨ r.bounds = ⟨none, some Int32.minValue⟩

instance (r : Interval D) : Decidable r.IsOverlooked := inferInstanceAs (Decidable (_ ∨ _))

theorem mem_domain_and_iff : v ∈ D ∧ v ∈ r ↔ r.bounds.least ≤ v ∧ v ≤ r.bounds.greatest := by
  have hfit : r.bounds.FitIn D := ⟨r.lower_mem, r.upper_mem, r.ordered⟩
  rw [mem_def, ← hfit.mem_complete_iff, r.complete_bounds, Bounds.mem_iff_least_le_and_le_greatest]

theorem selectsOne_iff_least_eq_greatest :
    SelectsOne D r ↔ r.bounds.least = r.bounds.greatest := by
  have hle := Bounds.least_le_greatest r.ordered
  simp only [SelectsOne, mem_domain_and_iff]
  constructor
  · intro h
    exact h.unique ⟨Int32.le_refl _, hle⟩ ⟨hle, Int32.le_refl _⟩
  · intro h
    rw [← h]
    refine ⟨r.bounds.least, ⟨Int32.le_refl _, Int32.le_refl _⟩, ?_⟩
    intro w hw
    exact Int32.le_antisymm hw.2 hw.1

theorem selectsOne_iff : SelectsOne D r ↔ r.IsSingle ∨ r.IsOverlooked := by
  have hne : Int32.minValue ≠ Int32.maxValue := by decide
  rw [selectsOne_iff_least_eq_greatest, IsSingle, IsOverlooked]
  obtain ⟨_ | lower, _ | upper⟩ := r.bounds <;>
    simp [Bounds.least, Bounds.greatest, Bounds.IsSingle, hne, eq_comm]

theorem not_isSingle_of_isOverlooked (h : r.IsOverlooked) : ¬ r.IsSingle := by
  rw [IsSingle]
  obtain h | h := h <;> simp [h, Bounds.IsSingle]

end Interval

/-! ## Strides -/

namespace Stride

variable {s : Stride D}

/-- The value up to which values are selected. -/
def reach (s : Stride D) : Int32 := (D.complete s.bounds).greatest

/-- The stride ends before its second value. -/
def IsOverlooked (s : Stride D) : Prop :=
  ¬ s.IsSingle ∧ s.reach.toInt < s.first.toInt + s.period.toNat

instance (s : Stride D) : Decidable s.IsOverlooked := inferInstanceAs (Decidable (_ ∧ _))

theorem mem_domain_and_iff : v ∈ D ∧ v ∈ s ↔
    (s.first ≤ v ∧ v ≤ s.reach) ∧ (s.period.toNat : Int) ∣ v.toInt - s.first.toInt := by
  have hfit : s.bounds.FitIn D := by
    refine ⟨?_, s.last_mem, s.ordered⟩
    rintro _ ⟨⟩
    exact s.first_mem
  rw [mem_def, ← and_assoc, ← hfit.mem_complete_iff, Bounds.mem_iff_least_le_and_le_greatest]
  rfl

theorem toNat_period_pos (s : Stride D) : 0 < s.period.toNat := by
  have h := s.period_ne_zero
  rw [← UInt32.toNat_inj.ne, UInt32.toNat_zero] at h
  omega

theorem selectsOne_iff_reach_lt :
    SelectsOne D s ↔ s.reach.toInt < s.first.toInt + s.period.toNat := by
  have hfirst : s.first ∈ D ∧ s.first ∈ s := ⟨s.first_mem, s.first_mem_self⟩
  constructor
  · intro h
    by_contra hreach
    -- the second value is selected too
    have hperiod := s.toNat_period_pos
    have hleast := s.first.le_toInt
    have hgreatest := s.reach.toInt_lt
    have hsecond : (Int32.ofInt (s.first.toInt + s.period.toNat)).toInt =
        s.first.toInt + s.period.toNat := Int32.toInt_ofInt_of_le (by omega) (by omega)
    have hmem : Int32.ofInt (s.first.toInt + s.period.toNat) ∈ D ∧
        Int32.ofInt (s.first.toInt + s.period.toNat) ∈ s := by
      rw [mem_domain_and_iff, Int32.le_iff_toInt_le, Int32.le_iff_toInt_le, hsecond]
      exact ⟨by omega, 1, by omega⟩
    have heq := congrArg Int32.toInt (h.unique hmem hfirst)
    omega
  · intro h
    refine ⟨s.first, hfirst, fun w hw => ?_⟩
    obtain ⟨⟨hle, hreach⟩, hdvd⟩ := mem_domain_and_iff.1 hw
    rw [Int32.le_iff_toInt_le] at hle hreach
    have hzero := Int.eq_zero_of_dvd_of_nonneg_of_lt (by omega) (by omega) hdvd
    exact Int32.toInt_inj.1 (by omega)

theorem reach_eq_first_of_isSingle (h : s.IsSingle) : s.reach = s.first := by
  obtain ⟨-, h⟩ := h
  have hlast : s.last = some s.first := h.symm
  simp [reach, Bounds.greatest, Domain.complete, bounds, hlast]

theorem selectsOne_iff : SelectsOne D s ↔ s.IsSingle ∨ s.IsOverlooked := by
  have hperiod := s.toNat_period_pos
  rw [selectsOne_iff_reach_lt, IsOverlooked]
  by_cases h : s.IsSingle
  · rw [reach_eq_first_of_isSingle h]
    simp only [h, true_or, iff_true]
    omega
  · simp [h]

end Stride

namespace Selector

/-- One value of the domain is selected, between bounds that are not that value. -/
def IsOverlooked : Selector D → Prop
  | .interval r => r.IsOverlooked
  | .stride s => s.IsOverlooked

instance : (s : Selector D) → Decidable s.IsOverlooked
  | .interval r => inferInstanceAs (Decidable r.IsOverlooked)
  | .stride s => inferInstanceAs (Decidable s.IsOverlooked)

theorem selectsOne_iff {s : Selector D} : SelectsOne D s ↔ s.IsSingle ∨ s.IsOverlooked := by
  cases s with
  | interval r => exact Interval.selectsOne_iff
  | stride s => exact Stride.selectsOne_iff

theorem not_isSingle_of_isOverlooked {s : Selector D} (h : s.IsOverlooked) : ¬ s.IsSingle := by
  cases s with
  | interval r => exact Interval.not_isSingle_of_isOverlooked h
  | stride s => exact h.1

end Selector

/-! ## Leap years -/

/-- The places where a property holds are counted by the sum that grows there by one. -/
theorem card_filter_Ico_eq {P : Int → Prop} [DecidablePred P] {count : Int → Int}
    (hcount : ∀ n, count (n + 1) = count n + if P n then 1 else 0) {lo hi : Int} (h : lo ≤ hi) :
    (((Finset.Ico lo hi).filter P).card : Int) = count hi - count lo := by
  induction hi, h using Int.leInduction with
  | base => simp
  | succ n hn ih =>
    rw [← Finset.insert_Ico_right_eq_Ico_add_one hn, Finset.filter_insert, hcount]
    split
    · rw [Finset.card_insert_of_notMem (by simp)]
      push_cast
      omega
    · omega

namespace LeapQualifier

variable {q : LeapQualifier}

/-- The number of qualified years from year 1 on and before a year. Each leap year has one day more
than the other years, so the days before a year tell how many there are. -/
def yearsBefore : LeapQualifier → (year : Int) → Int
  | .leap, year => Date.daysBeforeYear year - 365 * (year - 1)
  | .notLeap, year => 366 * (year - 1) - Date.daysBeforeYear year

theorem yearsBefore_succ (year : Int) :
    q.yearsBefore (year + 1) = q.yearsBefore year + if q.Holds year then 1 else 0 := by
  cases q <;> simp only [yearsBefore, Date.daysBeforeYear_succ, Holds] <;> grind

/-- There is one qualified year between bounds when the counts at their ends are one apart. -/
theorem existsUnique_mem_iff {b : Bounds} (h : b.Ordered) :
    (∃! v, v ∈ b ∧ q.Holds v.toInt) ↔
      q.yearsBefore (b.greatest.toInt + 1) = q.yearsBefore b.least.toInt + 1 := by
  have hle := Int32.le_iff_toInt_le.1 (Bounds.least_le_greatest h)
  have hcard := card_filter_Ico_eq (fun _ => yearsBefore_succ (q := q) _)
    (show b.least.toInt ≤ b.greatest.toInt + 1 by omega)
  have hone : ((Finset.Ico b.least.toInt (b.greatest.toInt + 1)).filter q.Holds).card = 1 ↔
      q.yearsBefore (b.greatest.toInt + 1) = q.yearsBefore b.least.toInt + 1 := by omega
  rw [Bounds.existsUnique_mem_iff, ← hone, Finset.card_eq_one, Finset.singleton_iff_unique_mem]
  simp only [Finset.mem_filter, Finset.mem_Ico, Int.lt_add_one_iff]

end LeapQualifier

namespace YearSelector

/-- One year is selected, between bounds that are not that year. -/
def IsOverlooked : YearSelector → Prop
  | .interval r => r.IsOverlooked
  | .stride s => s.IsOverlooked
  | .qualified q r _ =>
    q.yearsBefore (r.bounds.greatest.toInt + 1) = q.yearsBefore r.bounds.least.toInt + 1

instance : (s : YearSelector) → Decidable s.IsOverlooked
  | .interval r => inferInstanceAs (Decidable r.IsOverlooked)
  | .stride s => inferInstanceAs (Decidable s.IsOverlooked)
  | .qualified .. => inferInstanceAs (Decidable (_ = _))

theorem selectsOne_iff {s : YearSelector} :
    SelectsOne .years s ↔ s.IsSingle ∨ s.IsOverlooked := by
  cases s with
  | interval r => exact Interval.selectsOne_iff
  | stride s => exact Stride.selectsOne_iff
  | qualified q r several =>
    have hmem (v : Int32) : v ∈ Domain.years ∧ v ∈ qualified q r several ↔
        v ∈ r.bounds ∧ q.Holds v.toInt := and_iff_right (YearSpelling.mem_years v)
    simp only [SelectsOne, hmem, LeapQualifier.existsUnique_mem_iff r.ordered, IsSingle,
      IsOverlooked, false_or]

example : (parse? YearSelector "2020..2021/Leap").any (fun s => s.IsOverlooked) := by
  decide +kernel

theorem not_isSingle_of_isOverlooked {s : YearSelector} (h : s.IsOverlooked) : ¬ s.IsSingle := by
  cases s with
  | interval r => exact Interval.not_isSingle_of_isOverlooked h
  | stride s => exact h.1
  | qualified => exact id

end YearSelector

/-! ## Single selectors -/

/-- A single selector selects one value, and but for those that are overlooked every selector of one
value is single. -/
theorem isSingle_iff_selectsOne_iff (s : Selector D) (t : YearSelector) :
    ((SelectsOne D s ↔ s.IsSingle ∨ s.IsOverlooked) ∧
        ((s.IsSingle ↔ SelectsOne D s) ↔ ¬ s.IsOverlooked)) ∧
      (SelectsOne .years t ↔ t.IsSingle ∨ t.IsOverlooked) ∧
        ((t.IsSingle ↔ SelectsOne .years t) ↔ ¬ t.IsOverlooked) := by
  have hexact {single one overlooked : Prop} (hone : one ↔ single ∨ overlooked)
      (hnot : overlooked → ¬ single) : (single ↔ one) ↔ ¬ overlooked := by
    rw [hone]
    tauto
  constructor
  · have hone := Selector.selectsOne_iff (s := s)
    exact ⟨hone, hexact hone Selector.not_isSingle_of_isOverlooked⟩
  · have hone := YearSelector.selectsOne_iff (s := t)
    exact ⟨hone, hexact hone YearSelector.not_isSingle_of_isOverlooked⟩

/-- Every second month from December on is December only, but the stride is not single. -/
theorem selectsOne_december :
    ∃ s, parse? (Selector .months) "12/2" = some s ∧ SelectsOne .months s ∧ ¬ s.IsSingle := by
  let s : Selector .months := .stride ⟨12, none, 2, by decide, by decide, nofun, by decide⟩
  have hread : parse? (Selector .months) "12/2" = some s := by decide +kernel
  exact ⟨s, hread, Selector.selectsOne_iff.2 (.inr (by decide)), by decide⟩

end Workdays
