import Workdays.Selector.Interval
import Workdays.Selector.Stride
import Workdays.Text.Written

/-!
# Selectors

A selector on a domain is an interval or a stride. A list of selectors admits the values that one
of them selects, and an empty list admits every value.

## Main definitions

* `Selector D`: the selectors on a domain, with the selected values as members.
* `Admits`: the values that a list of selectors lets through.
-/

namespace Workdays

/-- A choice among the values of a domain. -/
inductive Selector (D : Domain) where
  | interval (r : Interval D)
  | stride (s : Stride D)
  deriving DecidableEq

namespace Selector

variable {D : Domain}

instance : Membership Int32 (Selector D) where
  mem
    | .interval r, v => v ∈ r
    | .stride s, v => v ∈ s

instance : (s : Selector D) → (v : Int32) → Decidable (v ∈ s)
  | .interval r, v => inferInstanceAs (Decidable (v ∈ r))
  | .stride s, v => inferInstanceAs (Decidable (v ∈ s))

@[simp] theorem mem_interval {r : Interval D} {v : Int32} : v ∈ Selector.interval r ↔ v ∈ r :=
  Iff.rfl

@[simp] theorem mem_stride {s : Stride D} {v : Int32} : v ∈ Selector.stride s ↔ v ∈ s := Iff.rfl

def all (D : Domain) : Selector D := .interval (.all D)

def ofInterval (D : Domain) (b : Bounds) : Except SelectorFault (Selector D) :=
  (Interval.ofBounds D b).map .interval

def ofStride (D : Domain) (first : Int32) (last : Option Int32) (period : UInt32) :
    Except SelectorFault (Selector D) :=
  (Stride.ofBounds D first last period).map .stride

/-- The lower and the upper bound are given and equal. -/
def IsSingle : Selector D → Prop
  | .interval r => r.IsSingle
  | .stride s => s.IsSingle

instance : (s : Selector D) → Decidable s.IsSingle
  | .interval r => inferInstanceAs (Decidable r.IsSingle)
  | .stride s => inferInstanceAs (Decidable s.IsSingle)

def write : Selector D → List Char
  | .interval r => r.write
  | .stride s => s.write

/-- Reads a stride or an interval; only the form of a stride holds a slash. -/
def read? (D : Domain) (cs : List Char) : Option (Selector D) :=
  (Stride.read? D cs).map .stride <|> (Interval.read? D cs).map .interval

instance : Written (Selector D) where
  kind := D.name ++ " matcher"
  read? := read? D
  write := write

/-- The days of the week from a first to a last one, in a week from Sunday (0) to Saturday (6). -/
def ofWeekdays (first last : Fin 7) : Except SelectorFault (Selector .daysOfWeek) :=
  ofInterval .daysOfWeek ⟨some (Int32.ofNat first), some (Int32.ofNat last)⟩

end Selector

/-- The value is selected by one of the selectors, or there are none. -/
def Admits {σ : Type} [Membership Int32 σ] (selectors : List σ) (v : Int32) : Prop :=
  selectors = [] ∨ ∃ s ∈ selectors, v ∈ s

instance {σ : Type} [Membership Int32 σ] [∀ (s : σ) (v : Int32), Decidable (v ∈ s)]
    (selectors : List σ) (v : Int32) : Decidable (Admits selectors v) :=
  match selectors with
  | [] => .isTrue (.inl rfl)
  | s :: rest => decidable_of_iff (∃ t ∈ s :: rest, v ∈ t) (by simp [Admits])

end Workdays
