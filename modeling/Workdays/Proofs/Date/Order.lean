import Mathlib.Order.Defs.LinearOrder
import Mathlib.Order.Monotone.Basic
import Workdays.Date.Succession

/-!
# The order of dates

Dates are ordered by year, month and day, since the days of the earlier months and years come first
in the count of days. No two dates have the same number, and the last supported date, the only one
without a successor, comes after all others.

## Main definitions

* `Date.last`: the last supported date.
-/

namespace Workdays.Date

variable {a b d : Date} {m n : Nat}

/-! ## Years and months in the count of days -/

theorem daysBeforeMonth_succ (year : Int) (m : Nat) :
    daysBeforeMonth year (m + 2) = daysBeforeMonth year (m + 1) + daysInMonth year (m + 1) := rfl

theorem monotone_daysBeforeMonth (year : Int) : Monotone (daysBeforeMonth year) := by
  apply monotone_nat_of_le_succ
  intro m
  cases m with
  | zero => exact Nat.le_refl 0
  | succ m =>
    rw [daysBeforeMonth_succ]
    omega

/-- A month is over before a later month of the year begins. -/
theorem daysBeforeMonth_add_daysInMonth_le (year : Int) (hm : 0 < m) (h : m < n) :
    daysBeforeMonth year m + daysInMonth year m ≤ daysBeforeMonth year n := by
  cases m with
  | zero => contradiction
  | succ m =>
    rw [← daysBeforeMonth_succ]
    exact monotone_daysBeforeMonth year h

theorem daysBeforeYear_le {x y : Int} (h : x ≤ y) : daysBeforeYear x ≤ daysBeforeYear y := by
  have hmono : Monotone daysBeforeYear := by
    apply monotone_int_of_le_succ
    intro year
    rw [daysBeforeYear_succ]
    split <;> omega
  exact hmono h

/-- A date is at most as many days into its year as the year has. -/
theorem dayNumber_le_daysBeforeYear_succ (d : Date) : d.dayNumber ≤ daysBeforeYear (d.year + 1) := by
  obtain ⟨-, hm, hd⟩ := d.isDate
  rw [dayNumber, daysBeforeYear_succ_eq_months]
  obtain h | h : d.month = 12 ∨ d.month < 12 := by omega
  · rw [h] at hd ⊢
    omega
  · have := daysBeforeMonth_add_daysInMonth_le d.year hm.1 h
    omega

theorem daysBeforeYear_lt_dayNumber (d : Date) : daysBeforeYear d.year < d.dayNumber := by
  obtain ⟨-, -, hd⟩ := d.isDate
  rw [dayNumber]
  omega

/-! ## The order -/

/-- The date has the earlier year, or the earlier month of the same year, or the earlier day of the
same month. -/
def IsBefore (a b : Date) : Prop :=
  a.year < b.year ∨ a.year = b.year ∧ (a.month < b.month ∨ a.month = b.month ∧ a.day < b.day)

theorem IsBefore.lt (h : a.IsBefore b) : a < b := by
  obtain ⟨-, hm, hd⟩ := a.isDate
  obtain ⟨-, hm', hd'⟩ := b.isDate
  rw [lt_def]
  obtain h | ⟨hyear, h | ⟨hmonth, h⟩⟩ := h
  · calc a.dayNumber
      _ ≤ daysBeforeYear (a.year + 1) := a.dayNumber_le_daysBeforeYear_succ
      _ ≤ daysBeforeYear b.year := daysBeforeYear_le h
      _ < b.dayNumber := b.daysBeforeYear_lt_dayNumber
  · have := daysBeforeMonth_add_daysInMonth_le b.year hm.1 h
    rw [hyear] at hd
    rw [dayNumber, dayNumber, hyear]
    omega
  · rw [dayNumber, dayNumber, hyear, hmonth]
    omega

theorem isBefore_or_eq_or_isBefore (a b : Date) : a.IsBefore b ∨ a = b ∨ b.IsBefore a := by
  obtain ⟨y, m, k, hd⟩ := a
  obtain ⟨y', m', k', hd'⟩ := b
  simp only [IsBefore, Date.mk.injEq]
  omega

/-- The count of days goes by year, month and day. -/
theorem lt_iff_isBefore : a < b ↔ a.IsBefore b := by
  refine ⟨fun h => ?_, IsBefore.lt⟩
  obtain hab | rfl | hba := isBefore_or_eq_or_isBefore a b
  · exact hab
  · rw [lt_def] at h
    omega
  · have := hba.lt
    rw [lt_def] at h this
    omega

/-- No two dates have the same number. -/
theorem eq_of_dayNumber_eq (h : a.dayNumber = b.dayNumber) : a = b := by
  obtain hab | hab | hba := isBefore_or_eq_or_isBefore a b
  · have := lt_def.1 hab.lt
    omega
  · exact hab
  · have := lt_def.1 hba.lt
    omega

instance : LinearOrder Date where
  le_refl a := Int.le_refl a.dayNumber
  le_trans _ _ _ := Int.le_trans
  le_antisymm _ _ hab hba := eq_of_dayNumber_eq (Int.le_antisymm hab hba)
  le_total a b := Int.le_total a.dayNumber b.dayNumber
  lt_iff_le_not_ge a b := by
    rw [lt_def, le_def, le_def]
    omega
  toDecidableLE := inferInstance
  toDecidableLT := inferInstance
  toDecidableEq := inferInstance

/-! ## The last date -/

def last : Date := ⟨262142, 12, 31, by decide⟩

theorem next?_eq_none_iff_eq_last : d.next? = none ↔ d = last := by
  rw [next?_eq_none_iff]
  cases d
  simp [last]

theorem le_last (d : Date) : d ≤ last := by
  obtain ⟨hy, hm, hd⟩ := d.isDate
  rw [← not_lt, lt_iff_isBefore]
  intro h
  obtain h | ⟨-, h | ⟨hmonth, h⟩⟩ := h
  · exact absurd hy.2 (by simpa [last] using h)
  · exact absurd hm.2 (by simpa [last] using h)
  · rw [← hmonth] at hd
    simp [last, daysInMonth] at h hd
    omega

end Workdays.Date
