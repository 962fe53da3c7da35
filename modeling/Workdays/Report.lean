import Workdays.Decimal.Shortest
import Workdays.Schedule.Basic

/-!
# Reports

A report on a schedule names the rules and the span, counts the working days and the working time
in hours, and lists the days.
-/

namespace Workdays

namespace Schedule

/-- The working time in hours, to the precision of a binary number. -/
def hours (s : Schedule) : Binary := .nearest s.minutes 60

def reportHeader (s : Schedule) (rules : String) (start stop : Date) : List String :=
  [s!" - rules: {rules}",
    s!" - range: {Written.text start} to {Written.text stop}",
    s!" - working days: {s.working.size}/{s.size}",
    s!" - working time: {String.ofList s.hours.write}h",
    "---"]

def report (s : Schedule) (rules : String) (start stop : Date) : String :=
  String.join ((s.reportHeader rules start stop).map fun line => line ++ "\n") ++ s.text

end Schedule

end Workdays
