import Workdays.Date.Text
import Workdays.Rule.Reader

/-!
# Log

What is worth telling beside a result: why a line is refused, how many rules a calendar has, which
dates no rule selects. A logged function returns its events in order beside its result.

## Main definitions

* `LogEvent`: the events, with their level and their message.
* `Rule.parseLogged`: the rule of a line, with the reason why a line is refused.
-/

namespace Workdays

inductive LogLevel where
  | debug
  | trace

def LogLevel.name : LogLevel → String
  | .debug => "DEBUG"
  | .trace => "TRACE"

inductive LogEvent where
  /-- A line is refused. -/
  | rejected (reason : Rejection)
  /-- A calendar is read. -/
  | loaded (rules : Nat)
  /-- A day is taken as non-working since no rule selects it. -/
  | unmatched (date : Date)
  deriving DecidableEq

namespace LogEvent

/-- Days are traced one by one. -/
def level : LogEvent → LogLevel
  | .rejected _ => .debug
  | .loaded _ => .debug
  | .unmatched _ => .trace

def message : LogEvent → String
  | .rejected reason => reason.message
  | .loaded rules => s!"Loaded a calendar of {rules} rules"
  | .unmatched date => s!"No rule matches {Written.text date}, considered as a non-working day"

end LogEvent

/-- A result with the events on the way to it. -/
structure Logged (α : Type) where
  result : α
  events : List LogEvent

/-- The rule of a line, or why there is none; of a line that is not blank the reason is told in
detail. -/
def Rule.parseLogged (line : String) : Logged (Except ReadError Rule) where
  result := parse Rule line
  events :=
    if Text.AllBlank line.toList then [] else
      match ofLine line.toList with
      | .ok _ => []
      | .error reason => [.rejected reason]

end Workdays
