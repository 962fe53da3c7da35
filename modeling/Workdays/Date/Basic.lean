/-!
# Dates

Dates of the proleptic Gregorian calendar, with the years numbered through zero and below. Days are
counted from the day before 1 January of year 1, which gives the order of dates and their weekdays.

## Main definitions

* `IsLeapYear`, `daysInMonth`: the rules of the calendar.
* `Date`: a day of a year that lies within the supported span.
* `Date.dayNumber`: the number of a date in the count of days.
* `Date.weekday`: the day of the week, from Sunday.
-/

namespace Workdays

/-- The years with a 29 February: every fourth, centuries apart unless 400 divides them. -/
def IsLeapYear (year : Int) : Prop := year % 4 = 0 ∧ (year % 100 ≠ 0 ∨ year % 400 = 0)

instance (year : Int) : Decidable (IsLeapYear year) := inferInstanceAs (Decidable (_ ∧ _))

/-- The number of days in a month, from January (1) to December (12). -/
def daysInMonth (year : Int) (month : Nat) : Nat :=
  if month = 2 then if IsLeapYear year then 29 else 28
  else if month = 4 ∨ month = 6 ∨ month = 9 ∨ month = 11 then 30
  else 31

/-- The days of the supported years, from 262144 BC to 262142 AD. -/
def IsDate (year : Int) (month day : Nat) : Prop :=
  (-262143 ≤ year ∧ year ≤ 262142) ∧ (1 ≤ month ∧ month ≤ 12) ∧
    (1 ≤ day ∧ day ≤ daysInMonth year month)

instance (year : Int) (month day : Nat) : Decidable (IsDate year month day) :=
  inferInstanceAs (Decidable (_ ∧ _))

structure Date where
  year : Int
  month : Nat
  day : Nat
  isDate : IsDate year month day := by decide
  deriving DecidableEq

namespace Date

def ofYearMonthDay? (year : Int) (month day : Nat) : Option Date :=
  if h : IsDate year month day then some ⟨year, month, day, h⟩ else none

/-- The days of the years before a year, counted from year 1. -/
def daysBeforeYear (year : Int) : Int :=
  365 * (year - 1) + (year - 1) / 4 - (year - 1) / 100 + (year - 1) / 400

def daysBeforeMonth (year : Int) : (month : Nat) → Nat
  | 0 => 0
  | 1 => 0
  | month + 1 => daysBeforeMonth year month + daysInMonth year month

/-- The number of a date in the count where 1 January of year 1 is the first day. -/
def dayNumber (d : Date) : Int :=
  daysBeforeYear d.year + daysBeforeMonth d.year d.month + d.day

/-- The day of the week, from Sunday (0) to Saturday (6): the count of days begins on a Monday. -/
def weekday (d : Date) : Fin 7 := ⟨(d.dayNumber % 7).toNat, by omega⟩

instance : LE Date := ⟨fun a b => a.dayNumber ≤ b.dayNumber⟩
instance : LT Date := ⟨fun a b => a.dayNumber < b.dayNumber⟩
instance (a b : Date) : Decidable (a ≤ b) :=
  inferInstanceAs (Decidable (a.dayNumber ≤ b.dayNumber))
instance (a b : Date) : Decidable (a < b) :=
  inferInstanceAs (Decidable (a.dayNumber < b.dayNumber))

theorem le_def {a b : Date} : a ≤ b ↔ a.dayNumber ≤ b.dayNumber := Iff.rfl

theorem lt_def {a b : Date} : a < b ↔ a.dayNumber < b.dayNumber := Iff.rfl

theorem ofYearMonthDay?_eq_some_iff {year : Int} {month day : Nat} {d : Date} :
    ofYearMonthDay? year month day = some d ↔
      d.year = year ∧ d.month = month ∧ d.day = day := by
  unfold ofYearMonthDay?
  split
  · rw [Option.some.injEq]
    constructor
    · rintro rfl; simp
    · obtain ⟨y, m, k, hd⟩ := d
      rintro ⟨rfl, rfl, rfl⟩; rfl
  · next h =>
    simp only [reduceCtorEq, false_iff]
    rintro ⟨rfl, rfl, rfl⟩
    exact h d.isDate

theorem ofYearMonthDay?_eq_none_iff {year : Int} {month day : Nat} :
    ofYearMonthDay? year month day = none ↔ ¬ IsDate year month day := by
  unfold ofYearMonthDay?
  split <;> simp [*]

theorem daysInMonth_pos (year : Int) (month : Nat) : 0 < daysInMonth year month := by
  unfold daysInMonth
  grind

theorem daysInMonth_le (year : Int) (month : Nat) : daysInMonth year month ≤ 31 := by
  unfold daysInMonth
  grind

/-- A year has 365 days, and a leap year one more. -/
theorem daysBeforeYear_succ (year : Int) :
    daysBeforeYear (year + 1) =
      daysBeforeYear year + if IsLeapYear year then 366 else 365 := by
  split <;> unfold IsLeapYear at * <;> unfold daysBeforeYear <;> omega

/-- The months of a year add up to the year. -/
theorem daysBeforeYear_succ_eq_months (year : Int) :
    daysBeforeYear (year + 1) =
      daysBeforeYear year + daysBeforeMonth year 12 + daysInMonth year 12 := by
  rw [daysBeforeYear_succ]
  simp only [daysBeforeMonth, daysInMonth]
  split <;> simp <;> omega

end Date

end Workdays
