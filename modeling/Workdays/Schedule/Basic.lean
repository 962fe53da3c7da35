import Workdays.Schedule.Day

/-!
# Schedules

A schedule lists days. Those that calendars make are in order of their dates, and stay so when days
are left out, so that a day is found by halving.

## Main definitions

* `Schedule`: the type.
* `Schedule.find?`: the day of a date.
* `Schedule.working`, `Schedule.slice`: parts of a schedule.
* `Schedule.minutes`: the total working time.
-/

namespace Workdays

structure Schedule where
  days : Array Day
  deriving DecidableEq

namespace Schedule

def empty : Schedule := ⟨#[]⟩

instance : Inhabited Schedule := ⟨empty⟩

def push (s : Schedule) (day : Day) : Schedule := ⟨s.days.push day⟩

def toList (s : Schedule) : List Day := s.days.toList

def size (s : Schedule) : Nat := s.days.size

/-- The day of a date among those from an index up to another, if the dates are in order there. -/
def findBetween? (s : Schedule) (d : Date) (lo hi : Nat) : Option Day :=
  if _ : lo < hi then
    let mid := (lo + hi) / 2
    match s.days[mid]? with
    | none => none
    | some day =>
      if day.date = d then some day
      else if day.date < d then findBetween? s d (mid + 1) hi
      else findBetween? s d lo mid
  else none
termination_by hi - lo

/-- The day of a date in a schedule in order of dates. -/
def find? (s : Schedule) (d : Date) : Option Day := s.findBetween? d 0 s.size

def working (s : Schedule) : Schedule := ⟨s.days.filter fun day => decide day.IsWorking⟩

/-- The days from an index up to another, as far as there are any. -/
def slice (s : Schedule) (start stop : Nat) : Schedule := ⟨s.days.extract start stop⟩

def minutes (s : Schedule) : Nat := (s.toList.map Day.minutes).foldr (· + ·) 0

def write (s : Schedule) : List Char := s.toList.flatMap fun day => day.write ++ ['\n']

def text (s : Schedule) : String := String.ofList s.write

@[simp] theorem toList_empty : empty.toList = [] := rfl

@[simp] theorem toList_push (s : Schedule) (day : Day) :
    (s.push day).toList = s.toList ++ [day] := by
  simp [push, toList]

@[simp] theorem toList_working (s : Schedule) :
    s.working.toList = s.toList.filter fun day => decide day.IsWorking := by
  simp [working, toList]

@[simp] theorem toList_slice (s : Schedule) (start stop : Nat) :
    (s.slice start stop).toList = (s.toList.drop start).take (stop - start) := by
  simp [slice, toList, List.extract_eq_take_drop]

theorem length_toList (s : Schedule) : s.toList.length = s.size := rfl

end Schedule

end Workdays
