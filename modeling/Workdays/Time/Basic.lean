import Workdays.Text.Numeral
import Workdays.Text.Written

/-!
# Times of the day

A time is a number of minutes since midnight, up to the end of the day, which is written `24:00`
and is no minute of the day itself. The form is `HH:MM`, with two digits on either side.
-/

namespace Workdays

/-- A time of the day, or its end, to the minute. -/
structure Time where
  /-- The minutes since midnight. -/
  minutes : Nat
  minutes_le : minutes ≤ 1440 := by decide
  deriving DecidableEq

inductive TimeFault where
  /-- The hour and the minute are beyond a day. -/
  | notOfTheDay (hour minute : Nat)
  /-- The end of the day has no counterpart on a clock. -/
  | offClock (time : Time)

namespace Time

def midnight : Time := ⟨0, by decide⟩

def endOfDay : Time := ⟨1440, by decide⟩

instance : Inhabited Time := ⟨midnight⟩

def hour (t : Time) : Nat := t.minutes / 60

def minute (t : Time) : Nat := t.minutes % 60

instance : LE Time := ⟨fun a b => a.minutes ≤ b.minutes⟩
instance : LT Time := ⟨fun a b => a.minutes < b.minutes⟩
instance (a b : Time) : Decidable (a ≤ b) := inferInstanceAs (Decidable (a.minutes ≤ b.minutes))
instance (a b : Time) : Decidable (a < b) := inferInstanceAs (Decidable (a.minutes < b.minutes))

theorem le_def {a b : Time} : a ≤ b ↔ a.minutes ≤ b.minutes := Iff.rfl

theorem lt_def {a b : Time} : a < b ↔ a.minutes < b.minutes := Iff.rfl

theorem hour_mul_add_minute (t : Time) : 60 * t.hour + t.minute = t.minutes :=
  Nat.div_add_mod t.minutes 60

theorem minute_lt (t : Time) : t.minute < 60 := Nat.mod_lt t.minutes (by decide)

/-- Times are ordered by their hour, and those of one hour by their minute. -/
theorem lt_iff_hour_lt_or {t u : Time} :
    t < u ↔ t.hour < u.hour ∨ t.hour = u.hour ∧ t.minute < u.minute := by
  have ht := t.minute_lt
  have hu := u.minute_lt
  rw [lt_def, ← t.hour_mul_add_minute, ← u.hour_mul_add_minute]
  omega

theorem ext {a b : Time} (h : a.minutes = b.minutes) : a = b := by
  cases a; cases b; simp_all

/-- The time a number of minutes after midnight, unless the day is over by then. -/
def ofMinutes? (n : Nat) : Option Time :=
  if h : n ≤ 1440 then some ⟨n, h⟩ else none

/-- The time of an hour and a minute: minutes go up to 59, and only `24:00` comes after 23:59. -/
def ofHourMinute? (hour minute : Nat) : Option Time :=
  if minute < 60 then ofMinutes? (60 * hour + minute) else none

/-- The form `HH:MM` of an hour and a minute, whether they are a time or not. -/
def writeHourMinute (hour minute : Nat) : List Char :=
  Text.writePadded 2 hour ++ ':' :: Text.writePadded 2 minute

def write (t : Time) : List Char := writeHourMinute t.hour t.minute

def read? : List Char → Option Time
  | [h₁, h₂, ':', m₁, m₂] => do ofHourMinute? (← Text.readNat? [h₁, h₂]) (← Text.readNat? [m₁, m₂])
  | _ => none

instance : Written Time where
  kind := "time"
  read? := read?
  write := write

end Time

def TimeFault.message : TimeFault → String
  | .notOfTheDay hour minute =>
    let time := String.ofList (Time.writeHourMinute hour minute)
    s!"invalid argument: {time} is not a time of the day"
  | .offClock time => s!"invalid argument: {Written.text time} has no wall-clock equivalent"

namespace Time

def ofHourMinute (hour minute : Nat) : Except TimeFault Time :=
  match ofHourMinute? hour minute with
  | some t => .ok t
  | none => .error (.notOfTheDay hour minute)

theorem ofHourMinute?_eq_some_iff {hour minute : Nat} {t : Time} :
    ofHourMinute? hour minute = some t ↔ t.hour = hour ∧ t.minute = minute := by
  have := t.minutes_le
  rw [ofHourMinute?, ofMinutes?, Time.hour, Time.minute]
  split
  · split
    · rw [Option.some.injEq]
      exact ⟨fun h => by subst h; simp only; omega, fun h => ext (by simp only; omega)⟩
    · simp only [reduceCtorEq, false_iff]; omega
  · simp only [reduceCtorEq, false_iff]; omega

@[simp] theorem ofHourMinute?_hour_minute (t : Time) : ofHourMinute? t.hour t.minute = some t :=
  ofHourMinute?_eq_some_iff.2 ⟨rfl, rfl⟩

/-- The form of a time has two characters, a colon and two characters. -/
theorem exists_write_eq (t : Time) : ∃ h₁ h₂ m₁ m₂, t.write = [h₁, h₂, ':', m₁, m₂] ∧
    Text.readNat? [h₁, h₂] = some t.hour ∧ Text.readNat? [m₁, m₂] = some t.minute := by
  have := t.minutes_le
  obtain ⟨h₁, h₂, hh⟩ := Text.exists_writePadded_two (n := t.hour) (by unfold hour; omega)
  obtain ⟨m₁, m₂, hm⟩ := Text.exists_writePadded_two (n := t.minute) (by unfold minute; omega)
  refine ⟨h₁, h₂, m₁, m₂, by simp [write, writeHourMinute, hh, hm], ?_, ?_⟩
  · rw [← hh, Text.readNat?_writePadded]
  · rw [← hm, Text.readNat?_writePadded]

@[simp] theorem read?_write (t : Time) : read? t.write = some t := by
  obtain ⟨h₁, h₂, m₁, m₂, ht, hh, hm⟩ := t.exists_write_eq
  simp [ht, read?, hh, hm]

end Time

end Workdays
