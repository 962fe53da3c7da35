import Mathlib.Algebra.GroupWithZero.Nat
import Mathlib.Algebra.Order.BigOperators.Group.List
import Mathlib.Algebra.Order.Group.Nat
import Mathlib.Order.Interval.Finset.Nat
import Workdays.Schedule.Basic

/-!
# Working time

The working time of a day is the sum of the lengths of its periods. A minute that several periods
cover counts once for each of them. So the working time is at least the number of minutes that are
worked, and it is this number when no two periods overlap, and only then. The periods can come in
any order and number; an empty one covers nothing and overlaps nothing, and of two that only touch
each minute is in one.

## Main definitions

* `Period.covered`: the minutes that a period covers.
* `Day.worked`: the minutes of a day that one of its periods covers.
* `Day.IsDisjoint`: no two periods of a day overlap.
-/

namespace Workdays

/-! ## Periods -/

namespace Period

variable {p q : Period} {periods : List Period} {minute : Nat}

def covered (p : Period) : Finset Nat := Finset.Ico p.start.minutes p.stop.minutes

theorem mem_covered : minute ∈ p.covered ↔ p.Covers minute := Finset.mem_Ico

theorem card_covered (p : Period) : p.covered.card = p.minutes := Nat.card_Ico _ _

theorem disjoint_covered_iff : Disjoint p.covered q.covered ↔ ¬ p.Overlaps q := by
  rw [overlaps_iff_exists_covers, Finset.disjoint_left]
  simp only [mem_covered, not_exists, not_and]

/-- The minutes of the day that one of the periods covers. -/
def coveredByAny (periods : List Period) : Finset Nat :=
  (Finset.range 1440).filter fun minute => ∃ p ∈ periods, p.Covers minute

theorem coveredByAny_nil : coveredByAny [] = ∅ := by simp [coveredByAny]

/-- A period covers minutes of the day only. -/
theorem coveredByAny_cons : coveredByAny (p :: periods) = p.covered ∪ coveredByAny periods := by
  ext minute
  have hday : p.Covers minute → minute < 1440 := fun h => Nat.lt_of_lt_of_le h.2 p.stop.minutes_le
  simp only [coveredByAny, Finset.mem_filter, Finset.mem_range, Finset.mem_union, mem_covered,
    List.exists_mem_cons_iff]
  grind

theorem disjoint_coveredByAny_iff :
    Disjoint p.covered (coveredByAny periods) ↔ ∀ q ∈ periods, ¬ p.Overlaps q := by
  induction periods with
  | nil => simp [coveredByAny_nil]
  | cons q periods ih =>
    rw [coveredByAny_cons, Finset.disjoint_union_right, ih, disjoint_covered_iff,
      List.forall_mem_cons]

/-- One more period adds its length to the number of covered minutes, less the minutes that the
others cover too. -/
theorem card_coveredByAny_cons (p : Period) (periods : List Period) :
    (coveredByAny (p :: periods)).card + (p.covered ∩ coveredByAny periods).card =
      p.minutes + (coveredByAny periods).card := by
  rw [coveredByAny_cons, Finset.card_union_add_card_inter, card_covered]

theorem card_coveredByAny_le (periods : List Period) :
    (coveredByAny periods).card ≤ (periods.map minutes).sum := by
  induction periods with
  | nil => simp [coveredByAny_nil]
  | cons p periods ih =>
    have hcons := card_coveredByAny_cons p periods
    rw [List.map_cons, List.sum_cons]
    omega

/-- The lengths of periods add up to the number of covered minutes when none is covered twice. -/
theorem sum_minutes_eq_card_iff : (periods.map minutes).sum = (coveredByAny periods).card ↔
    periods.Pairwise fun p q => ¬ p.Overlaps q := by
  induction periods with
  | nil => simp [coveredByAny_nil]
  | cons p periods ih =>
    have hcons := card_coveredByAny_cons p periods
    have hle := card_coveredByAny_le periods
    rw [List.pairwise_cons, ← ih, ← disjoint_coveredByAny_iff, Finset.disjoint_iff_inter_eq_empty,
      ← Finset.card_eq_zero, List.map_cons, List.sum_cons]
    omega

end Period

/-! ## Days -/

namespace Day

variable {day : Day} {days : List Day}

def worked (day : Day) : Finset Nat := Period.coveredByAny day.periods

/-- No two working periods, at different places of the list, overlap. -/
def IsDisjoint (day : Day) : Prop :=
  ∀ i j : Fin day.periods.length, i ≠ j → ¬ (day.periods.get i).Overlaps (day.periods.get j)

instance (day : Day) : Decidable day.IsDisjoint :=
  inferInstanceAs (Decidable (∀ i j, i ≠ j → ¬ _))

theorem isDisjoint_iff_pairwise :
    day.IsDisjoint ↔ day.periods.Pairwise fun p q => ¬ p.Overlaps q := by
  rw [List.pairwise_iff_get]
  constructor
  · intro h i j hij
    exact h i j (Fin.ne_of_lt hij)
  · intro h i j hij hoverlaps
    obtain hlt | hgt := Fin.lt_or_lt_of_ne hij
    · exact h i j hlt hoverlaps
    · exact h j i hgt hoverlaps.symm

theorem card_worked_le (day : Day) : day.worked.card ≤ day.minutes :=
  Period.card_coveredByAny_le day.periods

theorem minutes_eq_card_worked_iff : day.minutes = day.worked.card ↔ day.IsDisjoint := by
  rw [isDisjoint_iff_pairwise, ← Period.sum_minutes_eq_card_iff]
  rfl

theorem sum_card_worked_le (days : List Day) :
    (days.map fun day => day.worked.card).sum ≤ (days.map minutes).sum :=
  List.sum_le_sum fun day _ => day.card_worked_le

theorem sum_minutes_eq_sum_card_iff :
    (days.map minutes).sum = (days.map fun day => day.worked.card).sum ↔
      ∀ day ∈ days, day.IsDisjoint := by
  induction days with
  | nil => simp
  | cons day days ih =>
    have hday := day.card_worked_le
    have hdays := sum_card_worked_le days
    rw [List.forall_mem_cons, ← ih, ← minutes_eq_card_worked_iff]
    simp only [List.map_cons, List.sum_cons]
    omega

end Day

/-! ## The count -/

/-- Times are ordered by hour and minute, and the length of a period is never less than nothing. The
working time of a day is no less than the number of minutes that are worked, and equal to it when no
two of the periods overlap, and only then. The working time of a schedule is the sum over its days. -/
theorem minutes_count_worked :
    (∀ t u : Time, t < u ↔ t.hour < u.hour ∨ t.hour = u.hour ∧ t.minute < u.minute) ∧
    (∀ day : Day,
      (∀ p ∈ day.periods,
        60 * p.start.hour + p.start.minute + p.minutes = 60 * p.stop.hour + p.stop.minute) ∧
      day.worked.card ≤ day.minutes ∧ (day.minutes = day.worked.card ↔ day.IsDisjoint)) ∧
    ∀ s : Schedule, s.minutes = (s.toList.map Day.minutes).sum ∧
      (s.toList.map fun day => day.worked.card).sum ≤ s.minutes ∧
      (s.minutes = (s.toList.map fun day => day.worked.card).sum ↔
        ∀ day ∈ s.toList, day.IsDisjoint) := by
  refine ⟨fun t u => Time.lt_iff_hour_lt_or,
    fun day => ⟨fun p _ => ?_, day.card_worked_le, Day.minutes_eq_card_worked_iff⟩,
    fun s => ⟨rfl, Day.sum_card_worked_le s.toList, Day.sum_minutes_eq_sum_card_iff⟩⟩
  rw [Time.hour_mul_add_minute, Time.hour_mul_add_minute]
  exact p.start_add_minutes

/-- An empty period and one that begins where another stops leave the count as it is; a period that
is given twice does not. -/
theorem minutes_count_worked_touching :
    ∃ morning midday evening : Period,
      Written.text morning = "08:00-12:00" ∧ Written.text midday = "10:00-10:00" ∧
      Written.text evening = "12:00-24:00" ∧
      (∃ day : Day, day.periods = [morning, midday, evening] ∧ midday ∈ day.periods ∧
        60 * midday.start.hour + midday.start.minute + midday.minutes =
          60 * midday.stop.hour + midday.stop.minute ∧ day.worked.card = 960) ∧
      ∃ day : Day, day.periods = [morning, evening, morning] ∧ day.minutes = 1200 ∧
        day.worked.card < day.minutes := by
  let morning : Period := ⟨⟨480, by decide⟩, ⟨720, by decide⟩, by decide, by decide⟩
  let midday : Period := ⟨⟨600, by decide⟩, ⟨600, by decide⟩, by decide, by decide⟩
  let evening : Period := ⟨⟨720, by decide⟩, ⟨1440, by decide⟩, by decide, by decide⟩
  refine ⟨morning, midday, evening, by decide +kernel, by decide +kernel, by decide +kernel, ?_, ?_⟩
  · let day : Day := ⟨⟨2024, 3, 1, by decide⟩, none, [morning, midday, evening]⟩
    have hmidday : midday ∈ day.periods := by simp [day]
    obtain ⟨hlength, -, hcount⟩ := minutes_count_worked.2.1 day
    refine ⟨day, rfl, hmidday, hlength midday hmidday, ?_⟩
    rw [← hcount.2 (by decide)]
    decide +kernel
  · let day : Day := ⟨⟨2024, 3, 1, by decide⟩, none, [morning, evening, morning]⟩
    obtain ⟨-, hle, hcount⟩ := minutes_count_worked.2.1 day
    have hne : day.minutes ≠ day.worked.card := fun h => absurd (hcount.1 h) (by decide)
    exact ⟨day, rfl, by decide +kernel, by omega⟩

end Workdays
