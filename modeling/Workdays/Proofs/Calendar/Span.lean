import Workdays.Calendar.Basic
import Workdays.Proofs.Date.Span
import Workdays.Proofs.Result

/-!
# Calendars on spans of dates

The answers of a calendar on a span are those for its dates in order, and go on after a date that
is refused. The schedule of the span stops there: it lists the days of all answers, or tells the
first date that no rule selects if such dates are refused. A span that stops before it starts has
no answers and no schedule.

## Main definitions

* `Calendar.IsUnmatched`: the dates that no rule selects.
* `Calendar.IsFirstUnmatched`: the first of them in a span.
-/

namespace Workdays.Calendar

variable {c : Calendar} {d start stop : Date} {e : CalendarError} {s : Schedule}

def IsUnmatched (c : Calendar) (d : Date) : Prop := ∀ rule ∈ c.rules, ¬ rule.Selects d

/-- The date is in the span and not the last supported one, no rule selects it, and some rule
selects each date of the span before it. -/
structure IsFirstUnmatched (c : Calendar) (start stop d : Date) : Prop where
  start_le : start ≤ d
  le_stop : d ≤ stop
  ne_last : d ≠ .last
  isUnmatched : c.IsUnmatched d
  before : ∀ x, start ≤ x → x < d → ¬ c.IsUnmatched x

/-! ## One date -/

theorem decidingRule?_eq_none_iff : c.decidingRule? d = none ↔ c.IsUnmatched d := by
  simp [decidingRule?, IsUnmatched]

theorem dayAt_eq_error_iff :
    c.dayAt d = .error e ↔ c.unmatched = .reject ∧ c.IsUnmatched d ∧ e = .unmatched d := by
  rw [← decidingRule?_eq_none_iff, dayAt]
  cases c.decidingRule? d with
  | some rule => simp
  | none => cases c.unmatched <;> simp [eq_comm]

theorem exists_dayAt_eq_ok_iff :
    (∃ day, c.dayAt d = .ok day) ↔ (c.unmatched = .reject → ¬ c.IsUnmatched d) := by
  rw [← decidingRule?_eq_none_iff, dayAt]
  cases c.decidingRule? d with
  | some rule => simp
  | none => cases c.unmatched <;> simp

/-! ## Spans -/

/-- A schedule is extended by the answers for a number of dates, as long as there are days. -/
theorem extendSchedule_eq (n : Nat) (d : Date) (s : Schedule) :
    c.extendSchedule n d s =
      ((Date.consecutive n d).mapM c.dayAt).map fun days => ⟨(s.toList ++ days).toArray⟩ := by
  induction n generalizing d s with
  | zero => simp [extendSchedule, Schedule.toList, pure, Except.pure, Except.map]
  | succ n ih =>
    rw [extendSchedule, Date.consecutive]
    cases d.next? with
    | none => simp [Schedule.toList, pure, Except.pure, Except.map]
    | some next =>
      simp only [List.mapM_cons]
      cases c.dayAt d with
      | error e => rfl
      | ok day =>
        simp only [ih, Schedule.toList_push]
        cases (Date.consecutive n next).mapM c.dayAt <;>
          simp [bind, Except.bind, pure, Except.pure, Except.map]

theorem schedule_eq (h : start ≤ stop) :
    c.schedule start stop =
      ((Date.between start stop).mapM c.dayAt).map fun days => ⟨days.toArray⟩ := by
  rw [schedule, if_neg (not_lt.2 h), extendSchedule_eq]
  rfl

theorem schedule_eq_ok_iff :
    c.schedule start stop = .ok s ↔
      start ≤ stop ∧ c.answers start stop = s.toList.map .ok := by
  by_cases h : start ≤ stop
  · rw [schedule_eq h, map_eq_ok_iff, and_iff_right h, answers, ← mapM_eq_ok_iff]
    constructor
    · intro hs
      obtain ⟨days, hdays, rfl⟩ := hs
      exact hdays
    · intro hs
      exact ⟨s.toList, hs, rfl⟩
  · simp [schedule, not_le.1 h, h]

/-- There is a schedule of a span when each answer is a day. -/
theorem exists_schedule_eq_ok_iff :
    (∃ s, c.schedule start stop = .ok s) ↔
      start ≤ stop ∧ ∀ answer ∈ c.answers start stop, ∃ day, answer = .ok day := by
  have hdays : (∃ days : List Day, c.answers start stop = days.map .ok) ↔
      ∀ answer ∈ c.answers start stop, ∃ day, answer = .ok day := by
    rw [answers, exists_map_eq_map_ok_iff, List.forall_mem_map]
  simp only [schedule_eq_ok_iff, exists_and_left, ← hdays]
  refine and_congr_right fun _ => ⟨?_, ?_⟩
  · intro h
    obtain ⟨s, hs⟩ := h
    exact ⟨s.toList, hs⟩
  · intro h
    obtain ⟨days, hdays⟩ := h
    exact ⟨⟨days.toArray⟩, hdays⟩

theorem schedule_eq_error_iff :
    c.schedule start stop = .error e ↔
      stop < start ∧ e = .reversedSpan start stop ∨
        start ≤ stop ∧ c.unmatched = .reject ∧
          ∃ d, c.IsFirstUnmatched start stop d ∧ e = .unmatched d := by
  by_cases h : start ≤ stop
  · rw [schedule_eq h, map_eq_error_iff, mapM_eq_error_iff]
    simp only [exists_dayAt_eq_ok_iff, dayAt_eq_error_iff, not_lt.2 h, h, false_and, false_or,
      true_and]
    constructor
    · intro he
      obtain ⟨front, d, back, heq, hfront, hreject, hd, rfl⟩ := he
      obtain ⟨⟨hstart, hstop, hlast⟩, hbefore⟩ := Date.exists_between_eq_append_cons_iff.1
        ⟨front, back, heq, fun x hx => hfront x hx hreject⟩
      exact ⟨hreject, d, ⟨hstart, hstop, hlast, hd, hbefore⟩, rfl⟩
    · intro he
      obtain ⟨hreject, d, hd, rfl⟩ := he
      obtain ⟨front, back, heq, hfront⟩ := Date.exists_between_eq_append_cons_iff.2
        ⟨⟨hd.start_le, hd.le_stop, hd.ne_last⟩, hd.before⟩
      exact ⟨front, d, back, heq, fun x hx _ => hfront x hx, hreject, hd.isUnmatched, rfl⟩
  · simp [schedule, not_le.1 h, h, eq_comm]

/-- The answers on a span are those for its dates but the last supported one, in order, and each of
them is given, whatever the one before it is. The schedule of the span has the days of the answers.
It fails for a span that stops before it starts, and for the first date that no rule selects where
such dates are refused, and in no other way. -/
theorem schedule_collects_answers (c : Calendar) (start stop : Date) :
    (∃ dates : List Date, dates.Pairwise (· < ·) ∧
      (∀ d, d ∈ dates ↔ start ≤ d ∧ d ≤ stop ∧ d ≠ .last) ∧
      c.answers start stop = dates.map c.dayAt ∧
      ∀ limit, c.firstAnswers limit start stop = (dates.take limit).map c.dayAt) ∧
    (stop < start → c.answers start stop = []) ∧
    (∀ s, c.schedule start stop = .ok s ↔
      start ≤ stop ∧ c.answers start stop = s.toList.map .ok) ∧
    ((∃ s, c.schedule start stop = .ok s) ↔
      start ≤ stop ∧ ∀ answer ∈ c.answers start stop, ∃ day, answer = .ok day) ∧
    ∀ e, c.schedule start stop = .error e ↔
      stop < start ∧ e = .reversedSpan start stop ∨
        start ≤ stop ∧ c.unmatched = .reject ∧
          ∃ d, c.IsFirstUnmatched start stop d ∧ e = .unmatched d := by
  refine ⟨⟨Date.between start stop, Date.pairwise_between start stop,
    fun d => Date.mem_between_iff, rfl, fun limit => ?_⟩, fun h => ?_,
    fun s => schedule_eq_ok_iff, exists_schedule_eq_ok_iff, fun e => schedule_eq_error_iff⟩
  · rw [← take_answers, answers, List.map_take]
  · rw [answers, Date.between_eq_nil h, List.map_nil]

/-- A rule for weekdays leaves no schedule from a Friday to a Monday, since the Saturday is refused;
from the Monday back to the Friday there are no dates. -/
theorem schedule_refuses_weekend :
    ∃ r, Workdays.parse Rule "* * * 1..5" = .ok r ∧
      IsFirstUnmatched ⟨[r], .reject⟩ (.mk 2024 3 1) (.mk 2024 3 4) (.mk 2024 3 2) ∧
        schedule ⟨[r], .reject⟩ (.mk 2024 3 1) (.mk 2024 3 4) =
          .error (.unmatched (.mk 2024 3 2)) ∧
        Date.mk 2024 3 1 < .mk 2024 3 4 ∧
          answers ⟨[r], .reject⟩ (.mk 2024 3 4) (.mk 2024 3 1) = [] := by
  have hrule : (Workdays.parse Rule "* * * 1..5").map (fun r =>
      schedule ⟨[r], .reject⟩ (.mk 2024 3 1) (.mk 2024 3 4)) =
        .ok (.error (.unmatched (.mk 2024 3 2))) := by
    decide +kernel
  obtain ⟨r, hr, herror⟩ := map_eq_ok_iff.1 hrule
  have hlt : Date.mk 2024 3 1 < .mk 2024 3 4 := by decide
  have hlaw := schedule_collects_answers ⟨[r], .reject⟩
  obtain ⟨hgt, -⟩ | ⟨-, -, d, hd, heq⟩ := ((hlaw _ _).2.2.2.2 _).1 herror
  · exact absurd hlt (lt_asymm hgt)
  · cases heq
    exact ⟨r, hr, hd, herror, hlt, (hlaw _ _).2.1 hlt⟩

-- the last supported date is in no schedule, not even alone
example : schedule default .last .last = .ok .empty := by decide

end Workdays.Calendar
