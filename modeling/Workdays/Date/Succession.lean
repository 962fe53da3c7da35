import Workdays.Date.Basic

/-!
# Successive dates

Every date but the last supported one has a next date, and the number of the next date is one more.
A span of dates is listed from its first date on; the last supported date is never listed, since
a date is listed together with its successor.

## Main definitions

* `Date.next?`: the following date.
* `Date.consecutive`: a number of dates from a date on.
* `Date.between`: the dates from one date to another, both included.
-/

namespace Workdays.Date

def next? (d : Date) : Option Date :=
  ofYearMonthDay? d.year d.month (d.day + 1)
    <|> ofYearMonthDay? d.year (d.month + 1) 1
    <|> ofYearMonthDay? (d.year + 1) 1 1

/-- A number of dates from a date on, as far as they have a successor. -/
def consecutive : Nat → Date → List Date
  | 0, _ => []
  | n + 1, d =>
    match d.next? with
    | none => []
    | some next => d :: consecutive n next

/-- The number of dates from a date to another, both included; none if the second is earlier. -/
def span (start stop : Date) : Nat := (stop.dayNumber - start.dayNumber + 1).toNat

def between (start stop : Date) : List Date := consecutive (span start stop) start

/-- A date and the next one are one day apart. -/
theorem dayNumber_next {d next : Date} (h : d.next? = some next) :
    next.dayNumber = d.dayNumber + 1 := by
  obtain ⟨hy, hm, hd⟩ := d.isDate
  simp only [next?, Option.orElse_eq_orElse, Option.orElse_eq_or, Option.or_eq_some_iff,
    ofYearMonthDay?_eq_some_iff, ofYearMonthDay?_eq_none_iff] at h
  unfold dayNumber
  rcases h with ⟨h₁, h₂, h₃⟩ | ⟨h₀, ⟨h₁, h₂, h₃⟩ | ⟨h₀', h₁, h₂, h₃⟩⟩
  · rw [h₁, h₂, h₃]; omega
  · have hday : d.day = daysInMonth d.year d.month := by
      have : ¬ (d.day + 1 ≤ daysInMonth d.year d.month) := fun h => h₀ ⟨hy, hm, by omega, h⟩
      omega
    rw [h₁, h₂, h₃, hday]
    match hk : d.month with
    | 0 => omega
    | k + 1 => simp only [daysBeforeMonth]; omega
  · have hday : d.day = daysInMonth d.year d.month := by
      have : ¬ (d.day + 1 ≤ daysInMonth d.year d.month) := fun h => h₀ ⟨hy, hm, by omega, h⟩
      omega
    have hmonth : d.month = 12 := by
      have : ¬ (d.month + 1 ≤ 12) := fun h =>
        h₀' ⟨hy, ⟨by omega, h⟩, Nat.le_refl 1, daysInMonth_pos _ _⟩
      omega
    rw [h₁, h₂, h₃, hday, hmonth, daysBeforeYear_succ_eq_months]
    simp only [daysBeforeMonth]
    omega

/-- Only the last supported date has no successor. -/
theorem next?_eq_none_iff {d : Date} :
    d.next? = none ↔ d.year = 262142 ∧ d.month = 12 ∧ d.day = 31 := by
  obtain ⟨hy, hm, hd⟩ := d.isDate
  simp only [next?, Option.orElse_eq_orElse, Option.orElse_eq_or, Option.or_eq_none_iff,
    ofYearMonthDay?_eq_none_iff]
  constructor
  · rintro ⟨h₀, h₁, h₂⟩
    have hmonth : d.month = 12 := by
      have : ¬ (d.month + 1 ≤ 12) := fun h =>
        h₁ ⟨hy, ⟨by omega, h⟩, Nat.le_refl 1, daysInMonth_pos _ _⟩
      omega
    have hday : ¬ (d.day + 1 ≤ daysInMonth d.year d.month) := fun h => h₀ ⟨hy, hm, by omega, h⟩
    have hyear : ¬ (d.year + 1 ≤ 262142) := fun h =>
      h₂ ⟨⟨by omega, h⟩, by decide, Nat.le_refl 1, daysInMonth_pos _ _⟩
    rw [hmonth] at hd hday
    simp only [daysInMonth] at hd hday
    exact ⟨by omega, hmonth, by simp at hd hday; omega⟩
  · rintro ⟨h₁, h₂, h₃⟩
    rw [h₁, h₂, h₃]
    decide

@[simp] theorem consecutive_zero (d : Date) : consecutive 0 d = [] := rfl

/-- Fewer dates are the front of more. -/
theorem take_consecutive (k n : Nat) (d : Date) :
    (consecutive n d).take k = consecutive (min k n) d := by
  induction n generalizing k d with
  | zero => simp
  | succ n ih =>
    cases k with
    | zero => simp
    | succ k =>
      rw [Nat.add_min_add_right, consecutive, consecutive]
      cases d.next? with
      | none => rfl
      | some next => simp [ih]

end Workdays.Date
