import Workdays.Selector.Bounds

/-!
# Domains

A domain names the values that a selector chooses from and bounds them, on one side, on both or on
neither. A selector on a domain is built from bounds that lie in it and are in order.

## Main definitions

* `Domain`: the name and the bounds, with the four domains of the fields of a date.
* `SelectorFault`: why a selector is refused.
* `Domain.check`, `Bounds.check`: the checks on the bounds of a selector, which return what they
  have checked.
-/

namespace Workdays

/-- The values that a selector chooses from. -/
structure Domain where
  /-- The name of a value. -/
  name : String
  /-- The range of the values. -/
  bounds : Bounds
  ordered : bounds.Ordered := by decide

inductive SelectorFault where
  /-- A bound is not in the domain. -/
  | outside (name : String) (value : Int32)
  /-- The upper bound is less than the lower bound. -/
  | reversed (lower upper : Int32)
  /-- The values would be no distance apart. -/
  | zeroStep
  /-- A single year is either a leap year or not. -/
  | singleYear

def SelectorFault.message : SelectorFault → String
  | .outside name value => s!"invalid argument: {value.toInt} is not a valid {name}"
  | .reversed lower upper =>
    s!"invalid argument: range {lower.toInt}..{upper.toInt} "
      ++ "has its left bound after its right bound"
  | .zeroStep => "invalid argument: the period must be strictly positive"
  | .singleYear => "invalid argument: leap qualification requires a range of multiple years"

namespace Domain

def years : Domain := ⟨"year", ⟨none, none⟩, by decide⟩

def months : Domain := ⟨"month", ⟨some 1, some 12⟩, by decide⟩

def daysOfMonth : Domain := ⟨"day of month", ⟨some 1, some 31⟩, by decide⟩

/-- The days of a week, from Sunday to Saturday. -/
def daysOfWeek : Domain := ⟨"day of week", ⟨some 0, some 6⟩, by decide⟩

instance : Membership Int32 Domain := ⟨fun D v => v ∈ D.bounds⟩

instance (D : Domain) (v : Int32) : Decidable (v ∈ D) :=
  inferInstanceAs (Decidable (v ∈ D.bounds))

theorem mem_def {D : Domain} {v : Int32} : v ∈ D ↔ v ∈ D.bounds := Iff.rfl

/-- Takes the bounds of the domain where bounds are missing. -/
def complete (D : Domain) (b : Bounds) : Bounds :=
  ⟨b.lower.or D.bounds.lower, b.upper.or D.bounds.upper⟩

/-- Checks that a bound, if there is one, lies in the domain. -/
def check (D : Domain) : (v : Option Int32) → Except SelectorFault (PLift (∀ a ∈ v, a ∈ D))
  | none => .ok ⟨by simp⟩
  | some a => if h : a ∈ D then .ok ⟨by simpa⟩ else .error (.outside D.name a)

theorem check_eq_ok (D : Domain) {v : Option Int32} (h : ∀ a ∈ v, a ∈ D) :
    D.check v = .ok ⟨h⟩ := by
  cases v with
  | none => rfl
  | some a => exact dif_pos (h a rfl)

end Domain

namespace Bounds

def check : (b : Bounds) → Except SelectorFault (PLift b.Ordered)
  | ⟨some lo, some hi⟩ =>
    if h : lo ≤ hi then .ok ⟨by simpa [Ordered]⟩ else .error (.reversed lo hi)
  | ⟨none, _⟩ => .ok ⟨by simp [Ordered]⟩
  | ⟨some _, none⟩ => .ok ⟨by simp [Ordered]⟩

theorem check_eq_ok {b : Bounds} (h : b.Ordered) : b.check = .ok ⟨h⟩ := by
  obtain ⟨_ | lo, _ | hi⟩ := b
  case some.some => exact dif_pos (h lo rfl hi rfl)
  all_goals rfl

end Bounds

end Workdays
