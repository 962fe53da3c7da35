import Workdays.Calendar.Reader
import Workdays.Proofs.Calendar.Span
import Workdays.Proofs.Date.Text
import Workdays.Proofs.Rule.OneLine
import Workdays.Proofs.Text.Lines

/-!
# Listings of days

A line of a listing tells its day. The date ends at the first blank, the status is told by its first
letter, and what follows tells the description and the periods. So a line tells its day whatever the
description holds. Only a line break in a description could make two lines of one, and a day that
comes from a calendar has none.

## Main definitions

* `Schedule.IsAnswered`: the schedules whose days come from calendars, be it from several.
-/

namespace Workdays

/-! ## Lines -/

namespace Day

variable {c : Char}

/-- The status and what follows it. -/
def writeRest (day : Day) : List Char :=
  (if day.IsWorking then "working" else "non-working").toList
    ++ Rule.writeTail day.description day.periods

theorem writeRest_inj {x y : Day} (h : x.writeRest = y.writeRest) :
    x.description = y.description ∧ x.periods = y.periods := by
  by_cases hx : x.IsWorking <;> by_cases hy : y.IsWorking <;>
    simp only [writeRest, hx, hy, if_true, if_false] at h
  · exact Rule.writeTail_inj.1 (List.append_cancel_left h)
  · simp at h
  · simp at h
  · exact Rule.writeTail_inj.1 (List.append_cancel_left h)

/-- The date is written without a blank. -/
theorem splitFirst?_write (day : Day) :
    Text.splitFirst? [' '] day.write = some (day.date.write, day.writeRest) := by
  have hblank : ' ' ∉ day.date.write := day.date.isPlain_write.notMem (by decide)
  have hwrite : day.write = day.date.write ++ ([' '] ++ day.writeRest) := by
    simp [write, writeRest]
  rw [hwrite, Text.splitFirst?_append List.mem_cons_self hblank]

/-- A line tells its day. -/
theorem write_injective : Function.Injective write := by
  intro x y h
  have hsides := congrArg (Text.splitFirst? [' ']) h
  rw [splitFirst?_write, splitFirst?_write, Option.some.injEq, Prod.mk.injEq] at hsides
  obtain ⟨hdate, hrest⟩ := hsides
  obtain ⟨hdescription, hperiods⟩ := writeRest_inj hrest
  rw [Day.mk.injEq]
  exact ⟨Date.write_injective hdate, hdescription, hperiods⟩

theorem notMem_write {day : Day} (hblank : Text.isBlank c) (hspace : c ≠ ' ')
    (hdescription : ∀ text ∈ day.description, c ∉ text.toList) : c ∉ day.write := by
  have hstatus : Text.IsPlain (if day.IsWorking then "working" else "non-working").toList := by
    split <;> decide
  have hdate := day.date.isPlain_write.notMem hblank
  have htail : c ∉ Rule.writeTail day.description day.periods :=
    Rule.notMem_writeTail hblank hspace hdescription
  simp [write, hdate, hspace, hstatus.notMem hblank, htail]

end Day

/-! ## Days of calendars -/

namespace Calendar

variable {c : Calendar} {d : Date} {day : Day}

/-- What a calendar says of a date has the description of a rule, or none. -/
theorem oneLine_of_dayAt (h : c.dayAt d = .ok day) : '\n' ∉ day.write ∧ '\r' ∉ day.write := by
  have hdescription : ∀ text ∈ day.description, '\n' ∉ text.toList ∧ '\r' ∉ text.toList := by
    unfold dayAt at h
    split at h
    · next rule _ =>
      cases h
      exact rule.oneLine_descriptionText
    · split at h
      · cases h
        exact nofun
      · cases h
  constructor
  · exact Day.notMem_write (by decide) (by decide) fun text ht => (hdescription text ht).1
  · exact Day.notMem_write (by decide) (by decide) fun text ht => (hdescription text ht).2

end Calendar

namespace Schedule

variable {c : Calendar} {start stop : Date} {s : Schedule}

/-- Each day of the schedule is what some calendar says of some date. -/
def IsAnswered (s : Schedule) : Prop :=
  ∀ day ∈ s.toList, ∃ (c : Calendar) (d : Date), c.dayAt d = .ok day

theorem isAnswered_of_schedule (h : c.schedule start stop = .ok s) : s.IsAnswered := by
  intro day hday
  have hanswer : (.ok day : Except CalendarError Day) ∈ c.answers start stop := by
    rw [(Calendar.schedule_eq_ok_iff.1 h).2]
    exact List.mem_map_of_mem hday
  obtain ⟨d, -, hd⟩ := List.mem_map.1 hanswer
  exact ⟨c, d, hd⟩

theorem IsAnswered.oneLine (h : s.IsAnswered) :
    ∀ day ∈ s.toList, '\n' ∉ day.write ∧ '\r' ∉ day.write := by
  intro day hday
  obtain ⟨c, d, hd⟩ := h day hday
  exact Calendar.oneLine_of_dayAt hd

end Schedule

theorem Calendar.oneLine_of_schedule {c : Calendar} {start stop : Date} {s : Schedule}
    (h : c.schedule start stop = .ok s) : ∀ day ∈ s.toList, '\n' ∉ day.write ∧ '\r' ∉ day.write :=
  (Schedule.isAnswered_of_schedule h).oneLine

/-! ## Listings -/

namespace Schedule

variable {s t : Schedule}

theorem toList_text (s : Schedule) :
    s.text.toList = (s.toList.map Day.write).flatMap fun line => line ++ ['\n'] := by
  rw [text, String.toList_ofList, write, List.flatMap_map]

theorem lines_text (h : s.IsAnswered) : Text.lines s.text.toList = s.toList.map Day.write := by
  rw [toList_text]
  apply Text.lines_flatMap_newline
  rw [List.forall_mem_map]
  exact h.oneLine

/-- There is a line feed after each day, and no other. -/
theorem count_newline_text (h : s.IsAnswered) : s.text.toList.count '\n' = s.size := by
  have hlines : ∀ line ∈ s.toList.map Day.write, '\n' ∉ line := by
    rw [List.forall_mem_map]
    exact fun day hday => (h.oneLine day hday).1
  rw [toList_text, Text.count_flatMap_newline hlines, List.length_map, length_toList]

theorem ext_toList (h : s.toList = t.toList) : s = t := by
  rw [Schedule.mk.injEq]
  exact Array.toList_inj.1 h

/-- The listing of days that come from calendars has a line for each day, in order, with a line feed
after it, and no other line feed. A line tells the date, the status, the description and the periods
of its day, and so the listing tells all the days. -/
theorem listing_tells_days (hs : s.IsAnswered) (ht : t.IsAnswered) :
    (Text.lines s.text.toList = s.toList.map Day.write ∧ s.text.toList.count '\n' = s.size) ∧
      (∀ x y : Day, x.text = y.text → x.date = y.date ∧ (x.IsWorking ↔ y.IsWorking) ∧
        x.description = y.description ∧ x.periods = y.periods) ∧
      (s.text = t.text ↔ s = t) := by
  refine ⟨⟨lines_text hs, count_newline_text hs⟩, fun x y h => ?_, fun h => ?_, congrArg text⟩
  · obtain rfl := Day.write_injective (String.ofList_inj.1 h)
    exact ⟨rfl, Iff.rfl, rfl, rfl⟩
  · apply ext_toList
    have hlines := lines_text hs
    rw [h, lines_text ht] at hlines
    exact (Day.write_injective.list_map hlines).symm

/-- Two calendars with other rules say the same of a Friday and a Saturday, in lines with a `]]` and
what is nearly a period in the description. -/
theorem listing_tells_days_brackets :
    ∃ c c' s t, Calendar.parse "* * * 5,6 [[a]] 8:00-9:00]] 10:00-11:00" = .ok c ∧
      Calendar.parse "* * * * [[b]]\n2024 3 * * [[a]] 8:00-9:00]] 10:00-11:00" = .ok c' ∧
      c ≠ c' ∧ c.schedule (.mk 2024 3 1) (.mk 2024 3 2) = .ok s ∧
      c'.schedule (.mk 2024 3 1) (.mk 2024 3 2) = .ok t ∧ s.IsAnswered ∧ t.IsAnswered ∧
      s.text = "2024-03-01 working [[a]] 8:00-9:00]] 10:00-11:00\n" ++
        "2024-03-02 working [[a]] 8:00-9:00]] 10:00-11:00\n" ∧
      (Text.lines s.text.toList).length = s.size ∧ t.text = s.text ∧ s = t := by
  let listing (raw : String) : Except CalendarError (Except CalendarError String × Nat) :=
    (Calendar.parse raw).map fun c =>
      ((c.schedule (.mk 2024 3 1) (.mk 2024 3 2)).map text, c.rules.length)
  let lines := "2024-03-01 working [[a]] 8:00-9:00]] 10:00-11:00\n" ++
    "2024-03-02 working [[a]] 8:00-9:00]] 10:00-11:00\n"
  have hc : listing "* * * 5,6 [[a]] 8:00-9:00]] 10:00-11:00" = .ok (.ok lines, 1) := by
    decide +kernel
  have hc' : listing "* * * * [[b]]\n2024 3 * * [[a]] 8:00-9:00]] 10:00-11:00" =
      .ok (.ok lines, 2) := by
    decide +kernel
  obtain ⟨c, hc, heq⟩ := map_eq_ok_iff.1 hc
  obtain ⟨hlisting, hrules⟩ := Prod.mk.inj heq
  obtain ⟨s, hs, htext⟩ := map_eq_ok_iff.1 hlisting
  obtain ⟨c', hc', heq'⟩ := map_eq_ok_iff.1 hc'
  obtain ⟨hlisting', hrules'⟩ := Prod.mk.inj heq'
  obtain ⟨t, ht, htext'⟩ := map_eq_ok_iff.1 hlisting'
  have hanswered := isAnswered_of_schedule hs
  have hanswered' := isAnswered_of_schedule ht
  obtain ⟨⟨hlines, -⟩, -, hlaw⟩ := listing_tells_days hanswered hanswered'
  have hne : c ≠ c' := by
    rintro rfl
    rw [hrules] at hrules'
    cases hrules'
  refine ⟨c, c', s, t, hc, hc', hne, hs, ht, hanswered, hanswered', htext, ?_,
    htext'.trans htext.symm, hlaw.1 (htext.trans htext'.symm)⟩
  rw [hlines, List.length_map, length_toList]

end Schedule

end Workdays
