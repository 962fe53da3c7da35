import Workdays.Decimal.Binary
import Workdays.Text.Numeral

/-!
# Shortest decimals

A binary number is written with the fewest decimal places that tell it from its neighbours: the
decimal lies in the interval of the numbers that are rounded to it. Of two such decimals with these
places the nearer is written, and of two equally near the greater.

## Main definitions

* `Binary.shortest`: the decimal of a binary number, as digits and a number of places.
* `Binary.write`: its form.
-/

namespace Workdays.Binary

/-- A number of quarters of the last bit of a number, multiplied by `10 ^ places`, as a numerator
and a denominator. -/
def quarters (b : Binary) (n places : Nat) : Nat × Nat :=
  scaleDown (n * Nat.pow 10 places) 1 (2 - b.exponent)

/-- The lower end of the interval that is rounded to a number, in quarters of its last bit. It is
nearer where the numbers below lie more densely. -/
def lowerEnd (b : Binary) : Nat :=
  if b.mantissa = leastMantissa then 4 * b.mantissa - 1 else 4 * b.mantissa - 2

def upperEnd (b : Binary) : Nat := 4 * b.mantissa + 2

/-- The decimal with some digits and places is rounded to the number. The ends of the interval go to
the number whose mantissa is even. -/
def ReadsBack (b : Binary) (places digits : Nat) : Prop :=
  let (lo, d) := b.quarters b.lowerEnd places
  let (hi, _) := b.quarters b.upperEnd places
  if b.mantissa % 2 = 0 then lo ≤ digits * d ∧ digits * d ≤ hi
  else lo < digits * d ∧ digits * d < hi

instance (b : Binary) (places digits : Nat) : Decidable (b.ReadsBack places digits) := by
  unfold ReadsBack
  infer_instance

def truncate (b : Binary) (places : Nat) : Nat :=
  let (v, d) := b.quarters (4 * b.mantissa) places
  v / d

/-- The number is nearer to its digits cut off after some places than to the next decimal. -/
def IsNearerBelow (b : Binary) (places : Nat) : Prop :=
  let (v, d) := b.quarters (4 * b.mantissa) places
  2 * (v % d) < d

instance (b : Binary) (places : Nat) : Decidable (b.IsNearerBelow places) := by
  unfold IsNearerBelow
  infer_instance

/-- The digits with some places that are rounded to the number, the nearer ones of two. -/
def digitsAt? (b : Binary) (places : Nat) : Option Nat :=
  let below := b.truncate places
  if b.ReadsBack places below ∧ (b.IsNearerBelow places ∨ ¬ b.ReadsBack places (below + 1)) then
    some below
  else if b.ReadsBack places (below + 1) then some (below + 1)
  else none

/-- The digits with the fewest places from some on, among as many as are tried, and the places. -/
def shortestFrom (b : Binary) (places : Nat) : (tries : Nat) → Nat × Nat
  | 0 => (b.truncate places, places)
  | tries + 1 =>
    match b.digitsAt? places with
    | some digits => (digits, places)
    | none => shortestFrom b (places + 1) tries

/-- The digits with the fewest places, and the places. With as many places as a number has bits
behind the point it is written exactly. -/
def shortest (b : Binary) : Nat × Nat := b.shortestFrom 0 (-b.exponent).toNat

def write (b : Binary) : List Char :=
  let (digits, places) := b.shortest
  if places = 0 then Text.writeNat digits
  else
    Text.writeNat (digits / Nat.pow 10 places)
      ++ '.' :: Text.writePadded places (digits % Nat.pow 10 places)

theorem mem_write {b : Binary} {c : Char} (h : c ∈ b.write) : c.isDigit ∨ c = '.' := by
  have hdigits (n : Nat) := (Text.isNumeral_writeNat n).2 c
  have hpadded (width n : Nat) := (Text.isNumeral_writePadded width n).2 c
  rcases hb : b.shortest with ⟨digits, places⟩
  simp only [write, hb] at h
  split at h
  · exact .inl (hdigits _ h)
  · rw [List.mem_append, List.mem_cons] at h
    obtain h | rfl | h := h
    · exact .inl (hdigits _ h)
    · exact .inr rfl
    · exact .inl (hpadded _ _ h)

end Workdays.Binary
