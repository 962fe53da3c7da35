import Workdays.Command
import Workdays.Proofs.Report

/-!
# The two outputs of the command

A run works out the days before it looks at the option, so with the same other arguments it fails
with the option and without it. What is printed then tells the same days: with the option an object
for each day, and without it a report that has a line for each of these objects.

## Main definitions

* `Invocation.others`: the arguments beside the option.
* `Answer`: what is worked out, whichever output is asked for.
-/

namespace Workdays

/-! ## Runs -/

/-- What is worked out in a run, whichever output is asked for. -/
structure Answer where
  rules : String
  start : Date
  stop : Date
  schedule : Schedule

def Answer.print (a : Answer) (json : Bool) : String :=
  if json then a.schedule.exportText true ++ "\n" else a.schedule.report a.rules a.start a.stop

namespace Invocation

/-- The arguments beside the option. -/
def others (args : List String) : List String := args.filter (· ≠ jsonOption)

/-- What is worked out for the name of a file, with its content, and for two dates. -/
def answer (rules start stop : String) (content : Option String) :
    Except CommandError Answer := do
  let some content := content | .error (.unreadable rules)
  let calendar ← (Calendar.parse content).mapError .calendar
  let start ← (parse Date start).mapError .date
  let stop ← (parse Date stop).mapError .date
  let schedule ← (calendar.schedule start stop).mapError .calendar
  return ⟨rules, start, stop, schedule⟩

def answerTo (contentOf : String → Option String) : List String → Except CommandError Answer
  | [rules, start, stop] => answer rules start stop (contentOf rules)
  | _ => .error .usage

variable {contentOf : String → Option String} {args args' : List String} {a : Answer}

/-- The option is looked at last. -/
theorem run_eq (i : Invocation) (content : Option String) :
    i.run content = (answer i.rules i.start i.stop content).map fun a => a.print i.json := by
  cases content with
  | none => rfl
  | some content =>
    simp only [run, answer]
    rcases Calendar.parse content with _ | calendar
    · rfl
    rcases parse Date i.start with _ | start
    · rfl
    rcases parse Date i.stop with _ | stop
    · rfl
    rcases hs : calendar.schedule start stop with _ | schedule
    · simp only [Except.mapError, bind, Except.bind, hs, Except.map]
    · simp only [Except.mapError, bind, Except.bind, hs, pure, Except.pure, Except.map,
        Answer.print]

theorem ofArgs_eq (contentOf : String → Option String) (args : List String) :
    Outcome.ofArgs contentOf args =
      .ofResult ((answerTo contentOf (others args)).map fun a =>
        a.print (args.contains jsonOption)) := by
  rw [Outcome.ofArgs, ofArgs?, ← others]
  congr 1
  -- three arguments are an invocation, and no other number of them is
  rcases others args with _ | ⟨rules, _ | ⟨start, _ | ⟨stop, _ | ⟨more, rest⟩⟩⟩⟩
  · rfl
  · rfl
  · rfl
  · exact run_eq _ _
  · rfl

theorem answerTo_eq_ok (h : answerTo contentOf args = .ok a) :
    ∃ start stop, args = [a.rules, start, stop] ∧
      ∃ c : Calendar, c.schedule a.start a.stop = .ok a.schedule := by
  unfold answerTo at h
  split at h
  · next rules start stop =>
    unfold answer at h
    split at h
    · simp only [bind_eq_ok_iff, mapError_eq_ok_iff, pure_eq_ok_iff] at h
      obtain ⟨c, -, start', -, stop', -, s, hs, rfl⟩ := h
      exact ⟨start, stop, rfl, c, hs⟩
    · cases h
  · cases h

theorem exitCode_eq_zero_iff :
    (Outcome.ofArgs contentOf args).exitCode = 0 ↔
      ∃ a, answerTo contentOf (others args) = .ok a := by
  rw [ofArgs_eq]
  cases answerTo contentOf (others args) with
  | error e => simp [Except.map, Outcome.ofResult]
  | ok a => simp [Except.map, Outcome.ofResult]

theorem output_eq (h : answerTo contentOf (others args) = .ok a) :
    (Outcome.ofArgs contentOf args).output = a.print (args.contains jsonOption) := by
  rw [ofArgs_eq, h]
  rfl

theorem output_of_exitCode_ne_zero (h : (Outcome.ofArgs contentOf args).exitCode ≠ 0) :
    (Outcome.ofArgs contentOf args).output = "" := by
  rw [ne_eq, exitCode_eq_zero_iff] at h
  rw [ofArgs_eq]
  cases hanswer : answerTo contentOf (others args) with
  | error e => rfl
  | ok a => exact absurd ⟨a, hanswer⟩ h

end Invocation

/-! ## What is printed -/

namespace Outcome

open Invocation (others jsonOption)

/-- The outcome is told by the other arguments and by whether the option is among them, wherever and
however often. The option does not make a run fail, nor keep it from failing, and a failing run
prints nothing. When a run succeeds with the option, it prints a document, and without the option a
report on the objects of this document. -/
theorem ofArgs_outputs_agree (contentOf : String → Option String) :
    (∀ args args', others args = others args' → (jsonOption ∈ args ↔ jsonOption ∈ args') →
      ofArgs contentOf args = ofArgs contentOf args') ∧
    (∀ args args', others args = others args' →
      ((ofArgs contentOf args).exitCode ≠ 0 ↔ (ofArgs contentOf args').exitCode ≠ 0)) ∧
    (∀ args, (ofArgs contentOf args).exitCode ≠ 0 → (ofArgs contentOf args).output = "") ∧
    ∀ args args', others args = others args' → jsonOption ∈ args → jsonOption ∉ args' →
      (ofArgs contentOf args).exitCode = 0 →
        ∃ path start stop, others args = [path, start, stop] ∧ ∃ objects,
          Json.IsTextOf (ofArgs contentOf args).output (.array objects) ∧
          ('\n' ∉ path.toList → IsReportOn path objects (ofArgs contentOf args').output) := by
  refine ⟨?_, ?_, ?_, ?_⟩
  · intro args args' hothers hoption
    have hcontains : args.contains jsonOption = args'.contains jsonOption := by
      rw [Bool.eq_iff_iff, List.contains_iff_mem, List.contains_iff_mem, hoption]
    rw [Invocation.ofArgs_eq, Invocation.ofArgs_eq, hothers, hcontains]
  · intro args args' hothers
    rw [ne_eq, ne_eq, Invocation.exitCode_eq_zero_iff, Invocation.exitCode_eq_zero_iff, hothers]
  · intro args hfails
    exact Invocation.output_of_exitCode_ne_zero hfails
  · intro args args' hothers hoption hoption' hsucceeds
    obtain ⟨a, ha⟩ := Invocation.exitCode_eq_zero_iff.1 hsucceeds
    obtain ⟨start, stop, hargs, c, hc⟩ := Invocation.answerTo_eq_ok ha
    have hjson : args.contains jsonOption = true := List.contains_iff_mem.2 hoption
    have htext : args'.contains jsonOption = false := by
      rw [← Bool.not_eq_true, List.contains_iff_mem]
      exact hoption'
    refine ⟨a.rules, start, stop, hargs, a.schedule.toList.map Day.toJson, ?_, fun hpath => ?_⟩
    · rw [Invocation.output_eq ha, hjson]
      exact a.schedule.isTextOf_exportText_newline
    · rw [Invocation.output_eq (hothers ▸ ha), htext]
      exact Schedule.isReportOn_report hpath (Calendar.oneLine_of_schedule hc)

/-- A Friday and a Saturday, with the option in two places or in none; a date is missing in the last
run. -/
theorem ofArgs_outputs_agree_weekend :
    let contentOf (_ : String) := some "* * * 1..5 [[x]] 08:00-12:00"
    ofArgs contentOf ["--json", "r", "2024-05-17", "--json", "2024-05-18"] =
        ofArgs contentOf ["r", "2024-05-17", "2024-05-18", "--json"] ∧
      (∃ objects,
        Json.IsTextOf (ofArgs contentOf ["r", "2024-05-17", "2024-05-18", "--json"]).output
          (.array objects) ∧
        IsReportOn "r" objects (ofArgs contentOf ["r", "2024-05-17", "2024-05-18"]).output) ∧
      (ofArgs contentOf ["r", "2024-05-17", "2024-05-18"]).output =
        " - rules: r\n - range: 2024-05-17 to 2024-05-18\n - working days: 1/2\n"
          ++ " - working time: 4h\n---\n"
          ++ "2024-05-17 working [[x]] 08:00-12:00\n2024-05-18 non-working\n" ∧
      (ofArgs contentOf ["r", "2024-05-17", "--json"]).output = "" := by
  intro contentOf
  obtain ⟨hplace, -, hfails, hagree⟩ := ofArgs_outputs_agree contentOf
  refine ⟨hplace _ _ (by decide) (by decide), ?_, by decide +kernel,
    hfails _ (by decide +kernel)⟩
  obtain ⟨path, start, stop, hargs, objects, hjson, htext⟩ :=
    hagree ["r", "2024-05-17", "2024-05-18", "--json"] ["r", "2024-05-17", "2024-05-18"]
      (by decide) (by decide) (by decide) (by decide +kernel)
  have hothers : others ["r", "2024-05-17", "2024-05-18", "--json"] =
      ["r", "2024-05-17", "2024-05-18"] := by decide
  cases hothers.symm.trans hargs
  exact ⟨objects, hjson, htext (by decide)⟩

end Outcome

end Workdays
