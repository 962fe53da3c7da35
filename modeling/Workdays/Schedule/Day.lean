import Workdays.Date.Text
import Workdays.Rule.Basic

/-!
# Days of a schedule

A day is a date with its working periods and a description. It is worked when it has a working
period. It is written as its date and whether it is worked, then like the end of a rule.
-/

namespace Workdays

/-- What a calendar says of a date. -/
structure Day where
  date : Date
  description : Option String
  periods : List Period
  deriving DecidableEq

namespace Day

def ofRule (d : Date) (rule : Rule) : Day := ⟨d, rule.descriptionText, rule.periods⟩

def nonWorking (d : Date) : Day := ⟨d, none, []⟩

/-- The day has a working period, if only an empty one. -/
def IsWorking (day : Day) : Prop := day.periods ≠ []

instance (day : Day) : Decidable day.IsWorking := inferInstanceAs (Decidable (_ ≠ _))

/-- The minutes of all working periods together; a minute in two of them counts twice. -/
def minutes (day : Day) : Nat := (day.periods.map Period.minutes).foldr (· + ·) 0

def write (day : Day) : List Char :=
  day.date.write ++ ' ' :: (if day.IsWorking then "working" else "non-working").toList
    ++ Rule.writeTail day.description day.periods

def text (day : Day) : String := String.ofList day.write

end Day

end Workdays
