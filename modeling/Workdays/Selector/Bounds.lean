import Workdays.Text.Numeral
import Workdays.Text.Split

/-!
# Bounds

A range of integers has a lower and an upper bound, both included, and either may be missing. A
range is written `*` when both are, `N` when they are equal, and else `A..B`, `A..` or `..B`.

## Main definitions

* `Bounds`: the two bounds, with the values between them as members.
* `Bounds.read?`, `Bounds.write`: their form.
-/

namespace Workdays

structure Bounds where
  lower : Option Int32
  upper : Option Int32
  deriving DecidableEq

namespace Bounds

instance : Membership Int32 Bounds :=
  ⟨fun b v => (∀ a ∈ b.lower, a ≤ v) ∧ (∀ a ∈ b.upper, v ≤ a)⟩

instance (b : Bounds) (v : Int32) : Decidable (v ∈ b) :=
  @instDecidableAnd _ _ (Option.decidableForallMem _) (Option.decidableForallMem _)

theorem mem_def {b : Bounds} {v : Int32} :
    v ∈ b ↔ (∀ a ∈ b.lower, a ≤ v) ∧ (∀ a ∈ b.upper, v ≤ a) := Iff.rfl

def Ordered (b : Bounds) : Prop := ∀ lo ∈ b.lower, ∀ hi ∈ b.upper, lo ≤ hi

instance (b : Bounds) : Decidable b.Ordered :=
  @Option.decidableForallMem _ _ (fun _ => Option.decidableForallMem _) b.lower

def IsSingle (b : Bounds) : Prop := b.lower.isSome ∧ b.lower = b.upper

instance (b : Bounds) : Decidable b.IsSingle := inferInstanceAs (Decidable (_ ∧ _))

def writeNumber (v : Int32) : List Char := Text.writeInt v.toInt

/-- Reads a bound: ASCII digits only, for a number that fits. -/
def readNumber? (cs : List Char) : Option Int32 := do
  let n ← Text.readNat? cs
  if n ≤ 2147483647 then some (Int32.ofNat n) else none

def readOptional? (cs : List Char) : Option (Option Int32) :=
  if cs = [] then some none else (readNumber? cs).map some

def write (b : Bounds) : List Char :=
  match b.lower, b.upper with
  | none, none => ['*']
  | some a, none => writeNumber a ++ ['.', '.']
  | none, some c => ['.', '.'] ++ writeNumber c
  | some a, some c =>
    if a = c then writeNumber a else writeNumber a ++ ['.', '.'] ++ writeNumber c

/-- Reads `*`, `N`, `A..B`, `A..` or `..B`. -/
def read? (cs : List Char) : Option Bounds :=
  if cs = ['*'] then some ⟨none, none⟩ else
    match Text.splitFirst? ['.', '.'] cs with
    | none => do
      let v ← readNumber? cs
      some ⟨some v, some v⟩
    | some (lower, upper) => do
      let lower ← readOptional? lower
      let upper ← readOptional? upper
      if lower = none ∧ upper = none then none else some ⟨lower, upper⟩

end Bounds

end Workdays
