import Workdays.Date.Succession
import Workdays.Log
import Workdays.Schedule.Basic

/-!
# Calendars

A calendar is a list of rules of increasing priority: the last rule that selects a date decides on
it. A date that no rule selects is not worked, or is refused, as the calendar says.

## Main definitions

* `Calendar`: the rules, and what holds of the other dates.
* `Calendar.decidingRule?`: the rule that decides on a date.
* `Calendar.dayAt`: what the calendar says of a date.
* `Calendar.answers`: the same for the dates of a span, one by one.
* `Calendar.schedule`: the days of a span.
-/

namespace Workdays

/-- What holds of the dates that no rule selects. -/
inductive UnmatchedPolicy where
  /-- They are not worked. -/
  | nonWorking
  /-- They are refused. -/
  | reject
  deriving DecidableEq, Inhabited

def UnmatchedPolicy.name : UnmatchedPolicy → String
  | .nonWorking => "NonWorking"
  | .reject => "Reject"

/-- Rules of increasing priority. -/
structure Calendar where
  rules : List Rule
  unmatched : UnmatchedPolicy := default
  deriving DecidableEq, Inhabited

/-- Why a calendar has no answer, or is none itself. -/
inductive CalendarError where
  /-- A line, numbered from 1, is no rule. -/
  | rule (line : Nat) (source : ReadError)
  /-- No rule selects the date. -/
  | unmatched (date : Date)
  /-- The span stops before it starts. -/
  | reversedSpan (start stop : Date)
  deriving DecidableEq

namespace CalendarError

def source? : CalendarError → Option ReadError
  | .rule _ source => some source
  | .unmatched _ => none
  | .reversedSpan .. => none

def message : CalendarError → String
  | .rule line source => s!"invalid rule at line {line}: {source.message}"
  | .unmatched date => s!"no rule matches {Written.text date}"
  | .reversedSpan start stop =>
    s!"invalid range of dates: {Written.text start} is after {Written.text stop}"

end CalendarError

namespace Calendar

/-- The last rule that selects a date. -/
def decidingRule? (c : Calendar) (d : Date) : Option Rule :=
  c.rules.reverse.find? fun rule => decide (rule.Selects d)

def dayAt (c : Calendar) (d : Date) : Except CalendarError Day :=
  match c.decidingRule? d with
  | some rule => .ok (Day.ofRule d rule)
  | none =>
    match c.unmatched with
    | .nonWorking => .ok (Day.nonWorking d)
    | .reject => .error (.unmatched d)

/-- What the calendar says of a date; that no rule selects it is told. -/
def dayAtLogged (c : Calendar) (d : Date) : Logged (Except CalendarError Day) where
  result := c.dayAt d
  events :=
    match c.decidingRule? d, c.unmatched with
    | none, .nonWorking => [.unmatched d]
    | _, _ => []

def answers (c : Calendar) (start stop : Date) : List (Except CalendarError Day) :=
  (Date.between start stop).map c.dayAt

def firstAnswers (c : Calendar) (limit : Nat) (start stop : Date) :
    List (Except CalendarError Day) :=
  (Date.consecutive (min limit (Date.span start stop)) start).map c.dayAt

/-- Adds the days of a number of dates to a schedule, up to the first that is refused. -/
def extendSchedule (c : Calendar) : Nat → Date → Schedule → Except CalendarError Schedule
  | 0, _, days => .ok days
  | n + 1, d, days =>
    match d.next? with
    | none => .ok days
    | some next =>
      match c.dayAt d with
      | .ok day => extendSchedule c n next (days.push day)
      | .error e => .error e

/-- The days of a span, unless one of them is refused. -/
def schedule (c : Calendar) (start stop : Date) : Except CalendarError Schedule :=
  if stop < start then .error (.reversedSpan start stop)
  else c.extendSchedule (Date.span start stop) start .empty

def write (c : Calendar) : List Char := c.rules.flatMap fun rule => rule.write ++ ['\n']

def text (c : Calendar) : String := String.ofList c.write

/-- The first answers are the front of all answers. -/
theorem take_answers (c : Calendar) (limit : Nat) (start stop : Date) :
    (c.answers start stop).take limit = c.firstAnswers limit start stop := by
  rw [answers, ← List.map_take, Date.between, Date.take_consecutive, firstAnswers]

end Calendar

end Workdays
