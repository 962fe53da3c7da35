/-!
# Binary numbers of fixed precision

Numbers with 53 significant bits, as which a quotient is stored: the nearest one is taken, and of
two equally near the one with the even mantissa.

## Main definitions

* `Binary`: a mantissa and an exponent.
* `Binary.nearest`: the number nearest to a quotient.
-/

namespace Workdays

/-- The number `mantissa * 2 ^ exponent`. The mantissa has 53 bits, or is zero. -/
structure Binary where
  mantissa : Nat
  exponent : Int
  deriving DecidableEq

/-- The integer nearest to a quotient, and the even one of two. -/
def roundDiv (num den : Nat) : Nat :=
  if 2 * (num % den) < den ∨ 2 * (num % den) = den ∧ num / den % 2 = 0 then num / den
  else num / den + 1

/-- A quotient divided by `2 ^ e`, as a numerator and a denominator. -/
def scaleDown (num den : Nat) (e : Int) : Nat × Nat :=
  if 0 ≤ e then (num, den <<< e.toNat) else (num <<< (-e).toNat, den)

namespace Binary

def leastMantissa : Nat := 1 <<< 52

/-- The exponent at which the integer part of a positive quotient has 53 bits. -/
def exponentOf (num den : Nat) : Int :=
  let e : Int := num.log2 - den.log2 - 52
  let (n, d) := scaleDown num den e
  if n / d < leastMantissa then e - 1 else e

def nearest (num den : Nat) : Binary :=
  if num = 0 then ⟨0, 0⟩ else
    let e := exponentOf num den
    let (n, d) := scaleDown num den e
    let m := roundDiv n d
    if m = 2 * leastMantissa then ⟨leastMantissa, e + 1⟩ else ⟨m, e⟩

end Binary

end Workdays
