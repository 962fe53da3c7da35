import Workdays.Date.Fields
import Workdays.Selector.Year

/-!
# Patterns of dates

A pattern has a list of selectors for each field of a date and selects the dates of which each list
admits the field. It is written as the four lists with a blank between each two, the selectors of
a list with a comma between each two, and the empty list as `*`.

## Main definitions

* `Pattern`: the four lists.
* `Pattern.Selects`: the dates of a pattern.
* `Pattern.write`: the form.
-/

namespace Workdays

structure Pattern where
  years : List YearSelector
  months : List (Selector .months)
  daysOfMonth : List (Selector .daysOfMonth)
  daysOfWeek : List (Selector .daysOfWeek)
  deriving DecidableEq

namespace Pattern

/-- The pattern of all dates, which has no selector. -/
instance : Inhabited Pattern := ⟨[], [], [], []⟩

/-- Each field of the date is admitted by its list. -/
def Selects (p : Pattern) (d : Date) : Prop :=
  Admits p.years d.yearValue ∧ Admits p.months d.monthValue ∧
    Admits p.daysOfMonth d.dayValue ∧ Admits p.daysOfWeek d.weekdayValue

instance (p : Pattern) (d : Date) : Decidable (p.Selects d) := inferInstanceAs (Decidable (_ ∧ _))

def writeField {σ : Type} [Written σ] : List σ → List Char
  | [] => ['*']
  | selectors => Written.writeList [','] selectors

def write (p : Pattern) : List Char :=
  [' '].intercalate [writeField p.years, writeField p.months, writeField p.daysOfMonth,
    writeField p.daysOfWeek]

def text (p : Pattern) : String := String.ofList p.write

end Pattern

end Workdays
