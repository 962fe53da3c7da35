import Workdays.Date.Basic

/-!
# Fields of a date

The year, the month, the day of the month and the day of the week of a date, as the values that
selectors choose from.
-/

namespace Workdays.Date

def yearValue (d : Date) : Int32 := Int32.ofInt d.year

def monthValue (d : Date) : Int32 := Int32.ofNat d.month

def dayValue (d : Date) : Int32 := Int32.ofNat d.day

/-- The day of the week, from Sunday (0) to Saturday (6). -/
def weekdayValue (d : Date) : Int32 := Int32.ofNat d.weekday

end Workdays.Date
