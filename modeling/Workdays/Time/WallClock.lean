import Workdays.Time.Basic

/-!
# Wall clocks

A clock shows hours, minutes and seconds, and never 24:00. A time is taken from a clock by leaving
the seconds out, and every time but the end of the day is shown on one.
-/

namespace Workdays

structure WallClock where
  hour : Fin 24
  minute : Fin 60
  second : Fin 60
  deriving DecidableEq

def WallClock.toTime (c : WallClock) : Time where
  minutes := 60 * c.hour + c.minute
  minutes_le := by have := c.hour.isLt; have := c.minute.isLt; omega

/-- The start of the minute on a clock. -/
def Time.toWallClock (t : Time) : Except TimeFault WallClock :=
  if h : t.minutes < 1440 then
    .ok ⟨⟨t.hour, by unfold Time.hour; omega⟩, ⟨t.minute, by unfold Time.minute; omega⟩, 0⟩
  else .error (.offClock t)

end Workdays
