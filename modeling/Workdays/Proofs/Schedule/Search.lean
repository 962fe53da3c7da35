import Workdays.Proofs.Calendar.Span

/-!
# Finding the day of a date

A calendar lists the days of a span in order of their dates, and the order stays when days are left
out. So halving such a schedule finds the day of a date if there is one, as looking at each day in
turn does. In the schedule of a whole span it finds what the calendar says of the date, for each date
of the span but the last supported one.

## Main definitions

* `Schedule.IsSorted`: the schedules in strict order of dates.
* `Schedule.IsPart`: the schedules that are left after leaving out days.
-/

namespace Workdays

namespace Schedule

def IsSorted (s : Schedule) : Prop := (s.toList.map Day.date).Pairwise (· < ·)

/-- The second schedule is what is left of the first one after keeping, any number of times and in
any order, the days that are worked or the days from an index up to another. -/
inductive IsPart (s : Schedule) : Schedule → Prop
  | self : IsPart s s
  | working {t : Schedule} : IsPart s t → IsPart s t.working
  | slice {t : Schedule} (start stop : Nat) : IsPart s t → IsPart s (t.slice start stop)

variable {s t : Schedule} {d : Date} {x y day : Day} {i j lo hi : Nat}

/-! ## Leaving out days -/

/-- No part of a schedule has its days in another order. -/
theorem IsPart.sublist (h : s.IsPart t) : t.toList.Sublist s.toList := by
  induction h with
  | self => exact .refl s.toList
  | working _ ih =>
    rw [toList_working]
    exact List.filter_sublist.trans ih
  | slice start stop _ ih =>
    rw [toList_slice]
    exact ((List.take_sublist _ _).trans (List.drop_sublist _ _)).trans ih

theorem IsSorted.of_isPart (hs : s.IsSorted) (h : s.IsPart t) : t.IsSorted :=
  List.Pairwise.sublist (h.sublist.map Day.date) hs

/-! ## Halving -/

theorem IsSorted.date_lt (hs : s.IsSorted) (hx : s.days[i]? = some x) (hy : s.days[j]? = some y)
    (h : i < j) : x.date < y.date := by
  obtain ⟨hi, rfl⟩ := Array.getElem?_eq_some_iff.1 hx
  obtain ⟨hj, rfl⟩ := Array.getElem?_eq_some_iff.1 hy
  have hdates := List.pairwise_iff_getElem.1 hs i j (by simpa [toList]) (by simpa [toList]) h
  simpa [toList] using hdates

/-- The day of an earlier date has the smaller index. -/
theorem IsSorted.lt_of_date_lt (hs : s.IsSorted) (hx : s.days[i]? = some x)
    (hy : s.days[j]? = some y) (h : x.date < y.date) : i < j := by
  obtain hij | rfl | hji := Nat.lt_trichotomy i j
  · exact hij
  · rw [hx, Option.some.injEq] at hy
    exact absurd h (hy ▸ lt_irrefl x.date)
  · exact absurd h (lt_asymm (hs.date_lt hy hx hji))

/-- Halving finds the day of a date between two indices. The half that is given up has earlier dates
only, or later ones. -/
theorem findBetween?_eq_some_iff (hs : s.IsSorted) (hhi : hi ≤ s.size) :
    s.findBetween? d lo hi = some day ↔
      ∃ i, lo ≤ i ∧ i < hi ∧ s.days[i]? = some day ∧ day.date = d := by
  fun_induction findBetween? s d lo hi with
  | case1 lo hi hlt mid hnone =>
    have hmid : s.size ≤ mid := Array.getElem?_eq_none_iff.1 hnone
    omega
  | case2 lo hi hlt mid found hfound hdate =>
    constructor
    · rintro ⟨⟩
      exact ⟨mid, by omega, by omega, hfound, hdate⟩
    · intro h
      obtain ⟨i, -, -, hi, hd⟩ := h
      obtain h | rfl | h := Nat.lt_trichotomy mid i
      · exact absurd (hs.date_lt hfound hi h) (by rw [hdate, hd]; exact lt_irrefl d)
      · rw [← hfound, hi]
      · exact absurd (hs.date_lt hi hfound h) (by rw [hdate, hd]; exact lt_irrefl d)
  | case3 lo hi hlt mid middle hmiddle hne hbefore ih =>
    rw [ih hhi]
    refine exists_congr fun i => ?_
    constructor
    · rintro ⟨hmid, hi, hday⟩
      exact ⟨by omega, hi, hday⟩
    · rintro ⟨-, hi, hday, rfl⟩
      exact ⟨hs.lt_of_date_lt hmiddle hday hbefore, hi, hday, rfl⟩
  | case4 lo hi hlt mid middle hmiddle hne hnot ih =>
    have hafter : d < middle.date := lt_of_le_of_ne (not_lt.1 hnot) (Ne.symm hne)
    rw [ih (by omega)]
    refine exists_congr fun i => ?_
    constructor
    · rintro ⟨hlo, hmid, hday⟩
      exact ⟨hlo, by omega, hday⟩
    · rintro ⟨hlo, -, hday, rfl⟩
      exact ⟨hlo, hs.lt_of_date_lt hday hmiddle hafter, hday, rfl⟩
  | case5 lo hi hnot =>
    simp only [reduceCtorEq, false_iff]
    rintro ⟨i, hlo, hi, -⟩
    omega

theorem find?_eq_some_iff (hs : s.IsSorted) :
    s.find? d = some day ↔ day ∈ s.toList ∧ day.date = d := by
  rw [find?, findBetween?_eq_some_iff hs (Nat.le_refl _), List.mem_iff_getElem?]
  constructor
  · rintro ⟨i, -, -, hday, hd⟩
    exact ⟨⟨i, by simpa [toList] using hday⟩, hd⟩
  · rintro ⟨⟨i, hi⟩, hd⟩
    have hday : s.days[i]? = some day := by simpa [toList] using hi
    obtain ⟨hlt, -⟩ := Array.getElem?_eq_some_iff.1 hday
    exact ⟨i, Nat.zero_le i, hlt, hday, hd⟩

/-- Halving finds what a scan of the whole schedule finds. -/
theorem find?_eq_find?_toList (hs : s.IsSorted) :
    s.find? d = s.toList.find? fun day => decide (day.date = d) := by
  cases hscan : s.toList.find? fun day => decide (day.date = d) with
  | none =>
    rw [List.find?_eq_none] at hscan
    refine Option.eq_none_iff_forall_ne_some.2 fun day hday => ?_
    obtain ⟨hmem, hd⟩ := (find?_eq_some_iff hs).1 hday
    exact hscan day hmem (decide_eq_true hd)
  | some day =>
    have hd := List.find?_some (p := fun day : Day => decide (day.date = d)) hscan
    exact (find?_eq_some_iff hs).2 ⟨List.mem_of_find?_eq_some hscan, of_decide_eq_true hd⟩

end Schedule

/-! ## The schedule of a span -/

namespace Calendar

variable {c : Calendar} {s : Schedule} {d start stop : Date} {day : Day} {dates : List Date}
  {days : List Day}

theorem date_of_dayAt (h : c.dayAt d = .ok day) : day.date = d := by
  unfold dayAt at h
  split at h
  · cases h
    rfl
  · split at h <;> cases h
    rfl

theorem map_date_of_dayAt (h : dates.map c.dayAt = days.map .ok) : days.map Day.date = dates := by
  induction dates generalizing days with
  | nil => simpa using h
  | cons d dates ih =>
    cases days with
    | nil => simp at h
    | cons day days =>
      rw [List.map_cons, List.map_cons, List.cons.injEq] at h
      rw [List.map_cons, date_of_dayAt h.1, ih h.2]

theorem isSorted_of_schedule (h : c.schedule start stop = .ok s) : s.IsSorted := by
  have hdates := map_date_of_dayAt (schedule_eq_ok_iff.1 h).2
  rw [Schedule.IsSorted, hdates]
  exact Date.pairwise_between start stop

theorem find?_schedule_eq_some_iff (h : c.schedule start stop = .ok s) :
    s.find? d = some day ↔ (start ≤ d ∧ d ≤ stop ∧ d ≠ .last) ∧ c.dayAt d = .ok day := by
  have hmem : day ∈ s.toList ↔ ∃ x ∈ Date.between start stop, c.dayAt x = .ok day := by
    have hok : .ok day ∈ s.toList.map (Except.ok (ε := CalendarError)) ↔ day ∈ s.toList := by simp
    rw [← hok, ← (schedule_eq_ok_iff.1 h).2, answers, List.mem_map]
  rw [Schedule.find?_eq_some_iff (isSorted_of_schedule h), hmem, ← Date.mem_between_iff]
  constructor
  · rintro ⟨⟨x, hx, hday⟩, rfl⟩
    obtain rfl := date_of_dayAt hday
    exact ⟨hx, hday⟩
  · rintro ⟨hd, hday⟩
    exact ⟨⟨d, hd, hday⟩, date_of_dayAt hday⟩

theorem exists_dayAt_of_schedule (h : c.schedule start stop = .ok s)
    (hd : start ≤ d ∧ d ≤ stop ∧ d ≠ .last) : ∃ day, c.dayAt d = .ok day := by
  have hall := (exists_schedule_eq_ok_iff.1 ⟨s, h⟩).2
  exact hall _ (List.mem_map_of_mem (Date.mem_between_iff.2 hd))

/-- Each part of the schedule of a span lists its days in order of their dates, and halving finds in
it the day of a date if it has one, as a scan does. In the whole schedule halving finds what the
calendar says of the date, for the dates of the span but the last supported one. -/
theorem schedule_finds_days (h : c.schedule start stop = .ok s) :
    (∀ t, s.IsPart t → t.IsSorted ∧
      (∀ d, t.find? d = t.toList.find? fun day => decide (day.date = d)) ∧
      ∀ d day, t.find? d = some day ↔ day ∈ t.toList ∧ day.date = d) ∧
    ∀ d, ((∃ day, c.dayAt d = .ok day ∧ s.find? d = some day) ↔
        start ≤ d ∧ d ≤ stop ∧ d ≠ .last) ∧
      (s.find? d = none ↔ ¬ (start ≤ d ∧ d ≤ stop ∧ d ≠ .last)) := by
  have hs := isSorted_of_schedule h
  refine ⟨fun t ht => ?_, fun d => ⟨?_, ?_⟩⟩
  · have hsorted := hs.of_isPart ht
    exact ⟨hsorted, fun d => Schedule.find?_eq_find?_toList hsorted,
      fun d day => Schedule.find?_eq_some_iff hsorted⟩
  · constructor
    · rintro ⟨day, -, hfind⟩
      exact ((find?_schedule_eq_some_iff h).1 hfind).1
    · intro hd
      obtain ⟨day, hday⟩ := exists_dayAt_of_schedule h hd
      exact ⟨day, hday, (find?_schedule_eq_some_iff h).2 ⟨hd, hday⟩⟩
  · constructor
    · intro hnone hd
      obtain ⟨day, hday⟩ := exists_dayAt_of_schedule h hd
      rw [(find?_schedule_eq_some_iff h).2 ⟨hd, hday⟩] at hnone
      cases hnone
    · intro hd
      refine Option.eq_none_iff_forall_ne_some.2 fun day hfind => ?_
      exact hd ((find?_schedule_eq_some_iff h).1 hfind).1

/-- In the schedule of four days around a weekend, cut to the working days and then to the second of
them, the Monday is found as in the whole schedule, and the Saturday is not. -/
theorem schedule_finds_monday :
    ∃ r s monday, Workdays.parse Rule "* * * 1..5 08:00-18:00" = .ok r ∧
      schedule ⟨[r], .nonWorking⟩ (.mk 2024 3 1) (.mk 2024 3 4) = .ok s ∧
      dayAt ⟨[r], .nonWorking⟩ (.mk 2024 3 4) = .ok monday ∧
      s.find? (.mk 2024 3 4) = some monday ∧
      (s.working.slice 1 4).find? (.mk 2024 3 4) = some monday ∧
      (s.working.slice 1 4).find? (.mk 2024 3 2) = none := by
  let working : List Period := [⟨⟨480, by decide⟩, ⟨1080, by decide⟩, by decide, by decide⟩]
  let monday : Day := ⟨.mk 2024 3 4, none, working⟩
  let s : Schedule := ⟨#[⟨.mk 2024 3 1, none, working⟩, .nonWorking (.mk 2024 3 2),
    .nonWorking (.mk 2024 3 3), monday]⟩
  have hrule : (Workdays.parse Rule "* * * 1..5 08:00-18:00").map (fun r =>
      (schedule ⟨[r], .nonWorking⟩ (.mk 2024 3 1) (.mk 2024 3 4),
        dayAt ⟨[r], .nonWorking⟩ (.mk 2024 3 4))) = .ok (.ok s, .ok monday) := by
    decide +kernel
  obtain ⟨r, hr, heq⟩ := map_eq_ok_iff.1 hrule
  obtain ⟨hs, hmonday⟩ := Prod.mk.inj heq
  obtain ⟨hparts, -⟩ := schedule_finds_days hs
  obtain ⟨-, hscan, -⟩ := hparts _ (.slice 1 4 (.working .self))
  refine ⟨r, s, monday, hr, hs, hmonday, ?_, ?_, ?_⟩
  · rw [(hparts s .self).2.1]
    decide
  · rw [hscan]
    decide
  · rw [hscan]
    decide

end Calendar

end Workdays
