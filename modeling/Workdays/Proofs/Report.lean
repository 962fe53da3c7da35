import Workdays.Proofs.Schedule.Export
import Workdays.Proofs.Schedule.Listing
import Workdays.Report

/-!
# What a report tells

A report lists the objects of the document that the schedule is exported to. Its header counts them,
and after the header each object has a line, on which its date, its status, its description and its
periods stand as its members have them. The line of a day is that of every object that tells the
day, and neither the header nor a day that comes from a calendar holds a line break.

## Main definitions

* `Json.dayLine?`: the line of an object that tells a day.
* `IsReportOn`: the reports on the objects of a document.
-/

namespace Workdays

/-! ## Objects -/

namespace Json

def isWorkingDay (j : Json) : Bool :=
  match j.member? "isWorkingDay" with
  | some (.bool b) => b
  | _ => false

/-- The two texts of the object of a period, with a dash between them. -/
def periodText? (j : Json) : Option String := do
  let start ← (← j.member? "begin").text?
  let stop ← (← j.member? "end").text?
  some (start ++ "-" ++ stop)

/-- The text of the date, the status, the text of the description in double brackets if there is
one, and the periods, if there are any, with a comma between each two. -/
def dayLine? (j : Json) : Option String := do
  let date ← (← j.member? "date").text?
  let status := if j.isWorkingDay then "working" else "non-working"
  let description ← (j.member? "description").mapM text?
  let bracketed := description.elim "" fun text => " [[" ++ text ++ "]]"
  let periods ← (← (← j.member? "workingPeriods").elements?).mapM periodText?
  let listed := if periods = [] then "" else " " ++ ",".intercalate periods
  some (date ++ " " ++ status ++ bracketed ++ listed)

end Json

namespace Period

variable {p : Period} {j : Json}

/-- The members of an object that tells a period are the two halves of its form. -/
theorem periodText?_of_ofJson? (h : ofJson? j = some p) :
    j.periodText? = some (Written.text p) := by
  have htime {time : Json} {t : Time} (ht : time.value? Time = some t) :
      time.text? = some (Written.text t) := by
    obtain ⟨s, hs, hread⟩ := Option.bind_eq_some_iff.1 ht
    rw [hs, Time.parse?_eq_some_iff.1 hread]
  have htext : Written.text p = Written.text p.start ++ "-" ++ Written.text p.stop :=
    (Written.eq_text_iff.2 (by simp [Written.write, write])).symm
  simp only [ofJson?, Option.bind_eq_bind, Option.bind_eq_some_iff, toOption_eq_some_iff,
    ofTimes_eq_ok_iff] at h
  obtain ⟨first, hfirst, start, hstart, last, hlast, stop, hstop, rfl, rfl⟩ := h
  simp [Json.periodText?, hfirst, hlast, htime hstart, htime hstop, htext]

end Period

namespace Day

variable {day : Day} {j : Json}

theorem IsObject.isWorkingDay_eq (h : day.IsObject j) : j.isWorkingDay = decide day.IsWorking := by
  rw [Json.isWorkingDay, h.isWorking]

/-- The parts of the line of a day. -/
theorem text_eq (day : Day) : day.text =
    Written.text day.date ++ " " ++ (if day.IsWorking then "working" else "non-working") ++
      (day.description.elim "" fun text => " [[" ++ text ++ "]]") ++
      if day.periods.map Written.text = [] then ""
        else " " ++ ",".intercalate (day.periods.map Written.text) := by
  have hdate : (Written.text day.date).toList = day.date.write := Written.toList_text day.date
  have hperiods := Written.toList_intercalate_text "," day.periods
  rw [← String.toList_inj, text, String.toList_ofList, write]
  obtain ⟨date, description, periods⟩ := day
  cases description <;> cases periods <;> simp_all [Rule.writeTail, Description.write]

/-- The line of a day is that of every object that tells it. -/
theorem IsObject.dayLine?_eq (h : day.IsObject j) : j.dayLine? = some day.text := by
  obtain ⟨elements, helements, hperiods⟩ := h.periods
  have hdescription : (day.description.map Json.text).mapM Json.text? = some day.description := by
    cases day.description <;> rfl
  have htexts : elements.mapM Json.periodText? = some (day.periods.map Written.text) := by
    rw [mapM_eq_some_iff, List.forall₂_map_right_iff]
    exact hperiods.imp fun element p => Period.periodText?_of_ofJson?
  have hdate : (Json.text (Written.text day.date)).text? = some (Written.text day.date) := rfl
  simp [Json.dayLine?, h.date, hdate, h.isWorkingDay_eq, h.description, helements, hdescription,
    htexts, Json.elements?, text_eq]

end Day

/-! ## Reports -/

/-- The report has four header lines, with the numbers of the objects and of those that tell worked
days, a line of dashes, and then a line for each object, with what its members tell. -/
inductive IsReportOn (path : String) (objects : List Json) (report : String) : Prop
  | intro {range time : String} {header lines : List String} :
      header = [s!" - rules: {path}", range,
        s!" - working days: {objects.countP Json.isWorkingDay}/{objects.length}", time, "---"] →
      (∀ line ∈ header, '\n' ∉ line.toList) →
      (∀ object ∈ objects, ∃ day, Day.IsObject day object) →
      objects.map Json.dayLine? = lines.map some →
      (∀ line ∈ lines, '\n' ∉ line.toList ∧ '\r' ∉ line.toList) →
      report = String.join ((header ++ lines).map fun line => line ++ "\n") →
      IsReportOn path objects report

namespace Schedule

variable {s : Schedule} {path : String} {start stop : Date}

theorem report_eq : s.report path start stop =
    String.join ((s.reportHeader path start stop ++ s.toList.map Day.text).map
      fun line => line ++ "\n") := by
  have htext : s.text = String.join ((s.toList.map Day.text).map fun line => line ++ "\n") := by
    simp [← String.toList_inj, text, write, Day.text, List.flatMap_map]
  rw [report, htext, List.map_append, String.join_append]

theorem newline_notMem_reportHeader (hpath : '\n' ∉ path.toList) :
    ∀ line ∈ s.reportHeader path start stop, '\n' ∉ line.toList := by
  have hblank : Text.isBlank '\n' := by decide
  have hnat (n : Nat) : '\n' ∉ Nat.toDigits 10 n :=
    (Text.isNumeral_writeNat n).isPlain.notMem hblank
  have hdate (d : Date) : '\n' ∉ Written.write d := d.isPlain_write.notMem hblank
  have hhours : '\n' ∉ s.hours.write := fun h => by simpa using Binary.mem_write h
  have hself (t : String) : toString t = t := rfl
  simp [reportHeader, hpath, hnat, hdate, hhours, hself]

theorem countP_isWorkingDay (s : Schedule) :
    (s.toList.map Day.toJson).countP Json.isWorkingDay = s.working.size := by
  rw [List.countP_map, ← length_toList, toList_working, ← List.countP_eq_length_filter]
  refine List.countP_congr fun day _ => ?_
  rw [Function.comp_apply, day.isObject_toJson.isWorkingDay_eq]

/-- The report on a schedule is one on the objects of its days. -/
theorem isReportOn_report (hpath : '\n' ∉ path.toList)
    (hdays : ∀ day ∈ s.toList, '\n' ∉ day.write ∧ '\r' ∉ day.write) :
    IsReportOn path (s.toList.map Day.toJson) (s.report path start stop) := by
  obtain ⟨range, time, hheader⟩ : ∃ range time, s.reportHeader path start stop =
      [s!" - rules: {path}", range, s!" - working days: {s.working.size}/{s.size}", time,
        "---"] := ⟨_, _, rfl⟩
  have hobjects : (s.toList.map Day.toJson).length = s.size := by
    rw [List.length_map, length_toList]
  rw [← hobjects, ← countP_isWorkingDay] at hheader
  refine .intro hheader (newline_notMem_reportHeader hpath) ?_ ?_ ?_ report_eq
  · rw [List.forall_mem_map]
    exact fun day _ => ⟨day, day.isObject_toJson⟩
  · rw [List.map_map, List.map_map]
    exact List.map_congr_left fun day _ => day.isObject_toJson.dayLine?_eq
  · simpa [Day.text] using hdays

end Schedule

end Workdays
