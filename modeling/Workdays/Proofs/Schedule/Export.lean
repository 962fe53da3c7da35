import Workdays.Proofs.Date.Text
import Workdays.Proofs.Json.Printer
import Workdays.Proofs.Result
import Workdays.Schedule.Export

/-!
# What an export tells

The text of an exported schedule is of one document, which is the same for both layouts: a list with
an object for each day. The days are read back from it by the keys of the objects, so two schedules
have different texts.

## Main definitions

* `Json.member?`: the value of a member of an object.
* `Day.IsObject`: the objects that tell a day.
* `Schedule.ofJson?`: the schedule that a document tells.
-/

namespace Workdays

namespace Json

def member? (key : String) : Json → Option Json
  | .object members => members.lookup key
  | _ => none

def text? : Json → Option String
  | .text s => some s
  | _ => none

/-- The value with the text that a document is. -/
def value? (α : Type) [Written α] (j : Json) : Option α := j.text?.bind (parse? α)

theorem value?_text {α : Type} [Written α] {a : α}
    (h : Written.read? (Written.write a) = some a) : value? α (.text (Written.text a)) = some a := by
  rw [value?, text?, Option.bind_some, parse?, Written.toList_text, h]

def elements? : Json → Option (List Json)
  | .array elements => some elements
  | _ => none

end Json

namespace Period

def ofJson? (j : Json) : Option Period := do
  let start ← (← j.member? "begin").value? Time
  let stop ← (← j.member? "end").value? Time
  (ofTimes start stop).toOption

@[simp] theorem ofJson?_toJson (p : Period) : ofJson? p.toJson = some p := by
  have hbegin : p.toJson.member? "begin" = some (.text (Written.text p.start)) := rfl
  have hend : p.toJson.member? "end" = some (.text (Written.text p.stop)) := rfl
  have hstart := Json.value?_text (a := p.start) p.start.read?_write
  have hstop := Json.value?_text (a := p.stop) p.stop.read?_write
  simp [ofJson?, hbegin, hend, hstart, hstop, toOption_eq_some_iff]

end Period

namespace Day

/-- The day that an object tells. Whether it is worked is told by its periods. -/
def ofJson? (j : Json) : Option Day := do
  let date ← (← j.member? "date").value? Date
  let description ← (j.member? "description").mapM Json.text?
  let periods ← (← (← j.member? "workingPeriods").elements?).mapM Period.ofJson?
  pure ⟨date, description, periods⟩

/-- The object has the date, whether the day is worked, the description if there is one and the
periods, and no key twice. -/
structure IsObject (day : Day) (j : Json) : Prop where
  keys : ∃ members, j = .object members ∧ (members.map Prod.fst).Nodup
  date : j.member? "date" = some (.text (Written.text day.date))
  isWorking : j.member? "isWorkingDay" = some (.bool (decide day.IsWorking))
  description : j.member? "description" = day.description.map .text
  periods : ∃ elements, j.member? "workingPeriods" = some (.array elements) ∧
    List.Forall₂ (fun element p => Period.ofJson? element = some p) elements day.periods

variable {day : Day} {j : Json}

theorem isObject_toJson (day : Day) : day.IsObject day.toJson := by
  have hperiods : List.Forall₂ (fun element p => Period.ofJson? element = some p)
      (day.periods.map Period.toJson) day.periods := by
    rw [List.forall₂_map_left_iff, List.forall₂_same]
    exact fun p _ => Period.ofJson?_toJson p
  obtain ⟨date, description, periods⟩ := day
  cases description with
  | none => exact ⟨⟨_, rfl, by simp⟩, rfl, rfl, rfl, _, rfl, hperiods⟩
  | some text => exact ⟨⟨_, rfl, by simp⟩, rfl, rfl, rfl, _, rfl, hperiods⟩

/-- Such an object tells the day. -/
theorem IsObject.ofJson?_eq (h : day.IsObject j) : ofJson? j = some day := by
  obtain ⟨elements, helements, hperiods⟩ := h.periods
  have hdate := Json.value?_text (a := day.date) day.date.read?_write
  have hdescription : (day.description.map Json.text).mapM Json.text? = some day.description := by
    cases day.description <;> rfl
  rw [ofJson?, h.date, h.description, helements]
  simp [hdate, hdescription, Json.elements?, mapM_eq_some_iff.2 hperiods]

end Day

namespace Schedule

def ofJson? (j : Json) : Option Schedule := do
  let days ← (← j.elements?).mapM Day.ofJson?
  pure ⟨days.toArray⟩

variable {s : Schedule} {objects : List Json}

theorem ofJson?_eq_some (h : List.Forall₂ Day.IsObject s.toList objects) :
    ofJson? (.array objects) = some s := by
  have hdays : objects.mapM Day.ofJson? = some s.toList := by
    refine mapM_eq_some_iff.2 (List.Forall₂.flip (h.imp fun day object hday => ?_))
    exact hday.ofJson?_eq
  simp [ofJson?, Json.elements?, hdays, toList]

theorem forall₂_isObject_toJson (s : Schedule) :
    List.Forall₂ Day.IsObject s.toList (s.toList.map Day.toJson) := by
  rw [List.forall₂_map_right_iff, List.forall₂_same]
  exact fun day _ => day.isObject_toJson

/-- Each layout is a text of the document, and of no other. -/
theorem isTextOf_exportText_iff {layout : Bool} {j : Json} :
    Json.IsTextOf (s.exportText layout) j ↔ j = s.toJson := by
  have h : Json.IsTextOf (s.exportText layout) s.toJson := by
    cases layout with
    | false => exact Json.isTextOf_compact s.toJson
    | true => exact Json.isTextOf_pretty s.toJson
  constructor
  · intro hj
    exact hj.unique h
  · rintro rfl
    exact h

/-- A line feed at the end is no part of the document. -/
theorem isTextOf_exportText_newline (s : Schedule) :
    Json.IsTextOf (s.exportText true ++ "\n") s.toJson := by
  refine ⟨['\n'], ?_, by decide⟩
  rw [exportText, String.toList_append, if_pos rfl, String.toList_ofList]
  exact Json.reads_prettyAt 0 s.toJson ['\n']

/-- Whether on one line or on several, the export of a schedule is a text of one document: a list
with an object for each day, in order. The object has a description where the day has one. The
document tells the schedule, so no other schedule has the same text, in either layout. -/
theorem exportText_faithful (s : Schedule) :
    (∃ objects, List.Forall₂ Day.IsObject s.toList objects ∧
      (∀ layout j, Json.IsTextOf (s.exportText layout) j ↔ j = .array objects) ∧
      ofJson? (.array objects) = some s) ∧
    ∀ t layout layout', s.exportText layout = t.exportText layout' → s = t := by
  have htold (s : Schedule) : ofJson? s.toJson = some s := ofJson?_eq_some s.forall₂_isObject_toJson
  refine ⟨⟨_, s.forall₂_isObject_toJson, fun layout j => isTextOf_exportText_iff, htold s⟩, ?_⟩
  intro t layout layout' htext
  have hs : Json.IsTextOf (s.exportText layout) s.toJson := isTextOf_exportText_iff.2 rfl
  rw [htext, isTextOf_exportText_iff] at hs
  exact Option.some.inj ((htold s).symm.trans (hs ▸ htold t))

/-- A day whose description has a quote, a backslash, a line feed and another control character is
told by its text. -/
theorem exportText_escapes :
    let day : Day := ⟨.mk 2024 2 29, some "\"\\\n\x01", [default]⟩
    ∃ objects, List.Forall₂ Day.IsObject [day] objects ∧
      (∀ j, Json.IsTextOf ("[\x7b\"date\":\"2024-02-29\",\"isWorkingDay\":true,"
        ++ "\"description\":\"\\\"\\\\\\n\\u0001\","
        ++ "\"workingPeriods\":[\x7b\"begin\":\"00:00\",\"end\":\"00:00\"\x7d]\x7d]") j ↔
          j = .array objects) ∧
      ofJson? (.array objects) = some ⟨#[day]⟩ ∧ empty.push day = ⟨#[day]⟩ := by
  intro day
  have htext : (Schedule.mk #[day]).exportText false =
      "[\x7b\"date\":\"2024-02-29\",\"isWorkingDay\":true,"
        ++ "\"description\":\"\\\"\\\\\\n\\u0001\","
        ++ "\"workingPeriods\":[\x7b\"begin\":\"00:00\",\"end\":\"00:00\"\x7d]\x7d]" := by
    decide +kernel
  obtain ⟨⟨objects, hobjects, htexts, htold⟩, -⟩ := exportText_faithful ⟨#[day]⟩
  refine ⟨objects, hobjects, ?_, htold, ?_⟩
  · rw [← htext]
    exact htexts false
  · exact (exportText_faithful (empty.push day)).2 ⟨#[day]⟩ false false rfl

end Schedule

end Workdays
