import Workdays.Time.Basic

/-!
# Periods of a day

A period starts at a minute of the day and stops at that or a later time. It covers the minutes from
its start up to its stop, the stop left out, so it may be empty. The form is `HH:MM-HH:MM`.

## Main definitions

* `Period`: the type, with its order by start and then by stop.
* `Period.ofTimes`: the period between two times.
* `Period.Overlaps`: whether two periods have a minute in common.
-/

namespace Workdays

/-- The minutes of a day from a start up to a stop. -/
structure Period where
  start : Time
  stop : Time
  start_lt : start < Time.endOfDay := by decide
  start_le_stop : start ≤ stop := by decide
  deriving DecidableEq

inductive PeriodFault where
  /-- One of the times is refused. -/
  | time (fault : TimeFault)
  /-- Nothing starts at the end of the day. -/
  | startsAtEndOfDay
  /-- The period stops before it starts. -/
  | reversed (start stop : Time)

def PeriodFault.message : PeriodFault → String
  | .time fault => fault.message
  | .startsAtEndOfDay =>
    "invalid argument: a period can't begin at 24:00, which is only the end of a day"
  | .reversed start stop =>
    s!"invalid argument: period begins at {Written.text start} "
      ++ s!"which is after its end at {Written.text stop}"

namespace Period

def allDay : Period := ⟨Time.midnight, Time.endOfDay, by decide, by decide⟩

instance : Inhabited Period := ⟨⟨Time.midnight, Time.midnight, by decide, by decide⟩⟩

/-- Periods are ordered by their start, and those of one start by their stop. -/
instance : LE Period := ⟨fun p q => p.start < q.start ∨ p.start = q.start ∧ p.stop ≤ q.stop⟩

instance (p q : Period) : Decidable (p ≤ q) := inferInstanceAs (Decidable (_ ∨ _))

def ofTimes (start stop : Time) : Except PeriodFault Period :=
  if hs : start < Time.endOfDay then
    if h : start ≤ stop then .ok ⟨start, stop, hs, h⟩ else .error (.reversed start stop)
  else .error .startsAtEndOfDay

def ofHourMinutes (startHour startMinute stopHour stopMinute : Nat) :
    Except PeriodFault Period := do
  let start ← (Time.ofHourMinute startHour startMinute).mapError .time
  let stop ← (Time.ofHourMinute stopHour stopMinute).mapError .time
  ofTimes start stop

def minutes (p : Period) : Nat := p.stop.minutes - p.start.minutes

/-- A period that stops when it starts covers nothing. -/
def IsEmpty (p : Period) : Prop := p.start = p.stop

instance (p : Period) : Decidable p.IsEmpty := inferInstanceAs (Decidable (_ = _))

def seconds (p : Period) : Nat := 60 * p.minutes

/-- Whether a period covers the minute that begins at a number of minutes after midnight. -/
def Covers (p : Period) (minute : Nat) : Prop := p.start.minutes ≤ minute ∧ minute < p.stop.minutes

instance (p : Period) (minute : Nat) : Decidable (p.Covers minute) :=
  inferInstanceAs (Decidable (_ ∧ _))

/-- Each of two periods starts before the other stops, and neither is empty. -/
def Overlaps (p q : Period) : Prop :=
  ¬ p.IsEmpty ∧ ¬ q.IsEmpty ∧ p.start < q.stop ∧ q.start < p.stop

instance (p q : Period) : Decidable (p.Overlaps q) := inferInstanceAs (Decidable (_ ∧ _))

def write (p : Period) : List Char := p.start.write ++ '-' :: p.stop.write

def read? : List Char → Option Period
  | h₁ :: h₂ :: colon :: m₁ :: m₂ :: '-' :: rest => do
    let start ← Time.read? [h₁, h₂, colon, m₁, m₂]
    let stop ← Time.read? rest
    (ofTimes start stop).toOption
  | _ => none

instance : Written Period where
  kind := "time period"
  read? := read?
  write := write

@[simp] theorem ofTimes_start_stop (p : Period) : ofTimes p.start p.stop = .ok p := by
  rw [ofTimes, dif_pos p.start_lt, dif_pos p.start_le_stop]

@[simp] theorem read?_write (p : Period) : read? p.write = some p := by
  obtain ⟨h₁, h₂, m₁, m₂, hs, -, -⟩ := p.start.exists_write_eq
  have := p.start.read?_write
  rw [hs] at this
  simp [write, hs, read?, this, Except.toOption]

/-- The length of a period is the time from its start to its stop, which is no earlier. -/
theorem start_add_minutes (p : Period) : p.start.minutes + p.minutes = p.stop.minutes :=
  Nat.add_sub_cancel' (Time.le_def.1 p.start_le_stop)

theorem Overlaps.symm {p q : Period} (h : p.Overlaps q) : q.Overlaps p := by
  obtain ⟨hp, hq, hpq, hqp⟩ := h
  exact ⟨hq, hp, hqp, hpq⟩

theorem isEmpty_iff {p : Period} : p.IsEmpty ↔ p.start.minutes = p.stop.minutes :=
  ⟨congrArg Time.minutes, Time.ext⟩

/-- Two periods overlap just when a minute is in both. -/
theorem overlaps_iff_exists_covers {p q : Period} :
    p.Overlaps q ↔ ∃ minute, p.Covers minute ∧ q.Covers minute := by
  have := Time.le_def.1 p.start_le_stop
  have := Time.le_def.1 q.start_le_stop
  simp only [Overlaps, isEmpty_iff, Covers, Time.lt_def]
  constructor
  · intro h
    exact ⟨max p.start.minutes q.start.minutes, by omega⟩
  · rintro ⟨minute, h⟩
    omega

end Period

end Workdays
