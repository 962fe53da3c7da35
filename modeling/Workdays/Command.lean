import Workdays.Calendar.Reader
import Workdays.Report
import Workdays.Schedule.Export

/-!
# The command

The command takes the name of a file of rules and two dates and prints the days from the first to
the second, as a report or, with the option `--json` anywhere among the arguments, as JSON.

## Main definitions

* `Invocation`: what the command is asked for.
* `Invocation.run`: what it prints, given the content of the file.
* `Outcome`: what a run leaves behind.
-/

namespace Workdays

structure Invocation where
  rules : String
  start : String
  stop : String
  json : Bool
  deriving DecidableEq

inductive CommandError where
  /-- There are not three arguments beside the option. -/
  | usage
  /-- The file of rules cannot be read. -/
  | unreadable (rules : String)
  /-- The rules or the days are refused. -/
  | calendar (error : CalendarError)
  /-- A date is refused. -/
  | date (error : ReadError)

def CommandError.message : CommandError → String
  | .usage => "Usage: ./calendar <RULES_FILE> <START> <END> [--json]"
  | .unreadable rules => s!"cannot read {rules}"
  | .calendar error => error.message
  | .date error => error.message

namespace Invocation

def jsonOption : String := "--json"

/-- The invocation with some arguments: the file of rules and two dates. -/
def ofArgs? (args : List String) : Option Invocation :=
  match args.filter (· ≠ jsonOption) with
  | [rules, start, stop] => some ⟨rules, start, stop, args.contains jsonOption⟩
  | _ => none

/-- What the command prints, given the content of the file of rules if it can be read. -/
def run (i : Invocation) (content : Option String) : Except CommandError String := do
  let some content := content | .error (.unreadable i.rules)
  let calendar ← (Calendar.parse content).mapError .calendar
  let start ← (parse Date i.start).mapError .date
  let stop ← (parse Date i.stop).mapError .date
  let schedule ← (calendar.schedule start stop).mapError .calendar
  return if i.json then schedule.exportText true ++ "\n" else schedule.report i.rules start stop

end Invocation

structure Outcome where
  exitCode : UInt32
  output : String
  complaint : Option CommandError

namespace Outcome

/-- A failing run prints nothing. -/
def ofResult : Except CommandError String → Outcome
  | .ok output => ⟨0, output, none⟩
  | .error error => ⟨1, "", some error⟩

/-- The outcome for some arguments, with the files that can be read. -/
def ofArgs (contentOf : String → Option String) (args : List String) : Outcome :=
  ofResult <|
    match Invocation.ofArgs? args with
    | none => .error .usage
    | some invocation => invocation.run (contentOf invocation.rules)

end Outcome

end Workdays
