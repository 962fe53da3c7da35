import Workdays.Date.Basic
import Workdays.Selector.Basic

/-!
# Selectors of years

Years are selected like the values of the other fields, and besides by whether they are leap years:
an interval of several years may be qualified by `/Leap` or `/NotLeap`.

## Main definitions

* `LeapQualifier`: leap years, or the others.
* `YearSelector`: the selectors of years, with the selected years as members.
-/

namespace Workdays

inductive LeapQualifier where
  | leap
  | notLeap
  deriving DecidableEq

namespace LeapQualifier

def Holds : LeapQualifier → (year : Int) → Prop
  | .leap, year => IsLeapYear year
  | .notLeap, year => ¬ IsLeapYear year

instance : (q : LeapQualifier) → (year : Int) → Decidable (q.Holds year)
  | .leap, year => inferInstanceAs (Decidable (IsLeapYear year))
  | .notLeap, year => inferInstanceAs (Decidable (¬ IsLeapYear year))

/-- What is written after the interval. -/
def mark : LeapQualifier → List Char
  | .leap => "/Leap".toList
  | .notLeap => "/NotLeap".toList

end LeapQualifier

inductive YearSelector where
  | interval (r : Interval .years)
  | stride (s : Stride .years)
  /-- The leap years, or the others, among several years. -/
  | qualified (q : LeapQualifier) (r : Interval .years) (several : ¬ r.IsSingle)
  deriving DecidableEq

namespace YearSelector

instance : Membership Int32 YearSelector where
  mem
    | .interval r, v => v ∈ r
    | .stride s, v => v ∈ s
    | .qualified q r _, v => v ∈ r ∧ q.Holds v.toInt

instance : (s : YearSelector) → (v : Int32) → Decidable (v ∈ s)
  | .interval r, v => inferInstanceAs (Decidable (v ∈ r))
  | .stride s, v => inferInstanceAs (Decidable (v ∈ s))
  | .qualified q r _, v => inferInstanceAs (Decidable (v ∈ r ∧ q.Holds v.toInt))

@[simp] theorem mem_interval {r : Interval .years} {v : Int32} :
    v ∈ YearSelector.interval r ↔ v ∈ r := Iff.rfl

@[simp] theorem mem_stride {s : Stride .years} {v : Int32} :
    v ∈ YearSelector.stride s ↔ v ∈ s := Iff.rfl

@[simp] theorem mem_qualified {q : LeapQualifier} {r : Interval .years} {several : ¬ r.IsSingle}
    {v : Int32} : v ∈ YearSelector.qualified q r several ↔ v ∈ r ∧ q.Holds v.toInt := Iff.rfl

def all : YearSelector := .interval (.all .years)

def ofInterval (b : Bounds) : Except SelectorFault YearSelector :=
  (Interval.ofBounds .years b).map .interval

def ofStride (first : Int32) (last : Option Int32) (period : UInt32) :
    Except SelectorFault YearSelector :=
  (Stride.ofBounds .years first last period).map .stride

/-- Qualifies an interval, unless it is a single year. -/
def qualify (q : LeapQualifier) (r : Interval .years) : Except SelectorFault YearSelector :=
  if h : r.IsSingle then .error .singleYear else .ok (.qualified q r h)

def ofQualified (q : LeapQualifier) (b : Bounds) : Except SelectorFault YearSelector := do
  qualify q (← Interval.ofBounds .years b)

def IsSingle : YearSelector → Prop
  | .interval r => r.IsSingle
  | .stride s => s.IsSingle
  | .qualified .. => False

instance : (s : YearSelector) → Decidable s.IsSingle
  | .interval r => inferInstanceAs (Decidable r.IsSingle)
  | .stride s => inferInstanceAs (Decidable s.IsSingle)
  | .qualified .. => inferInstanceAs (Decidable False)

/-- The form of an interval, with the mark of its qualifier, or of a stride. -/
def write : YearSelector → List Char
  | .interval r => r.write
  | .stride s => s.write
  | .qualified q r _ => r.write ++ q.mark

def readQualified? (q : LeapQualifier) (cs : List Char) : Option YearSelector := do
  let range ← q.mark.isSuffixOf? cs
  let r ← Interval.read? .years range
  (qualify q r).toOption

/-- Reads a qualified interval, a stride or an interval. -/
def read? (cs : List Char) : Option YearSelector :=
  readQualified? .leap cs
    <|> readQualified? .notLeap cs
    <|> (Stride.read? .years cs).map .stride
    <|> (Interval.read? .years cs).map .interval

instance : Written YearSelector where
  kind := Domain.years.name ++ " matcher"
  read? := read?
  write := write

end YearSelector

end Workdays
