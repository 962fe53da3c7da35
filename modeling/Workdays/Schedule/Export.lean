import Workdays.Json.Printer
import Workdays.Schedule.Basic

/-!
# Export of schedules

A schedule is exported as a list of objects, one for each day. An object has the date, whether the
day is worked, the description if there is one, and the working periods.
-/

namespace Workdays

def Period.toJson (p : Period) : Json :=
  .object [("begin", .text (Written.text p.start)), ("end", .text (Written.text p.stop))]

/-- A day is an object, in which a missing description is left out. -/
def Day.toJson (day : Day) : Json :=
  .object (
    [("date", .text (Written.text day.date)), ("isWorkingDay", .bool (decide day.IsWorking))]
    ++ (match day.description with
        | none => []
        | some text => [("description", .text text)])
    ++ [("workingPeriods", .array (day.periods.map Period.toJson))])

def Schedule.toJson (s : Schedule) : Json := .array (s.toList.map Day.toJson)

/-- The text of an exported schedule, on one line or on several. -/
def Schedule.exportText (s : Schedule) (pretty : Bool) : String :=
  String.ofList (if pretty then s.toJson.pretty else s.toJson.compact)

end Workdays
