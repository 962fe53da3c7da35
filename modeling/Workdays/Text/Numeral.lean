/-!
# Decimal numerals

Natural numbers are read from one or more ASCII digits, leading zeros allowed, and written in the
fewest digits, or padded with zeros on the left where a format asks for a width.

## Main definitions

* `Text.readNat?`: the value of a run of digits.
* `Text.writeNat`, `Text.writeInt`, `Text.writePadded`: the numerals of a number.
-/

namespace Workdays.Text

def IsNumeral (cs : List Char) : Prop := cs ≠ [] ∧ ∀ c ∈ cs, c.isDigit

instance (cs : List Char) : Decidable (IsNumeral cs) :=
  @instDecidableAnd _ _ inferInstance (List.decidableBAll _ cs)

def readNat? (cs : List Char) : Option Nat :=
  if IsNumeral cs then some (Nat.ofDigitChars 10 cs 0) else none

def writeNat (n : Nat) : List Char := Nat.toDigits 10 n

def writeInt (n : Int) : List Char :=
  if n < 0 then '-' :: writeNat n.natAbs else writeNat n.natAbs

/-- The digits of a number, with zeros in front up to a width. -/
def writePadded (width n : Nat) : List Char := (writeNat n).leftpad width '0'

theorem isNumeral_writeNat (n : Nat) : IsNumeral (writeNat n) :=
  ⟨Nat.toDigits_ne_nil, fun _ h => Nat.isDigit_of_mem_toDigits (by decide) (by decide) h⟩

@[simp] theorem readNat?_writeNat (n : Nat) : readNat? (writeNat n) = some n := by
  rw [readNat?, if_pos (isNumeral_writeNat n), writeNat,
    Nat.ofDigitChars_toDigits (by decide) (by decide)]

theorem isNumeral_writePadded (width n : Nat) : IsNumeral (writePadded width n) := by
  refine ⟨by simp [writePadded, List.leftpad, (isNumeral_writeNat n).1], fun c hc => ?_⟩
  simp only [writePadded, List.leftpad, List.mem_append] at hc
  rcases hc with hc | hc
  · rw [List.eq_of_mem_replicate hc]; decide
  · exact (isNumeral_writeNat n).2 c hc

theorem length_writePadded {width n : Nat} (h : (writeNat n).length ≤ width) :
    (writePadded width n).length = width := by
  simp only [writePadded, List.leftpad, List.length_append, List.length_replicate]
  omega

/-- A number below 100 takes two digits. -/
theorem exists_writePadded_two {n : Nat} (h : n < 100) :
    ∃ tens units, writePadded 2 n = [tens, units] := by
  have : (writePadded 2 n).length = 2 :=
    length_writePadded ((Nat.length_toDigits_le_iff (by decide) (by decide)).2 h)
  match h' : writePadded 2 n with
  | [tens, units] => exact ⟨tens, units, rfl⟩
  | [] | [_] | _ :: _ :: _ :: _ => simp [h'] at this

/-- Zeros in front do not change what a numeral denotes. -/
@[simp] theorem readNat?_writePadded (width n : Nat) :
    readNat? (writePadded width n) = some n := by
  rw [readNat?, if_pos (isNumeral_writePadded width n), writePadded, List.leftpad,
    Nat.ofDigitChars_append, Nat.ofDigitChars_replicate_zero, Nat.mul_zero, writeNat,
    Nat.ofDigitChars_toDigits (by decide) (by decide)]

/-- Two characters with a value are digits. -/
theorem isDigit_of_readNat? {c d : Char} {n : Nat} (h : readNat? [c, d] = some n) :
    c.isDigit ∧ d.isDigit := by
  unfold readNat? at h
  split at h
  · next hn =>
    simpa using hn.2
  · cases h

/-- Two digits are told by their number. -/
theorem eq_of_readNat?_eq {c d c' d' : Char} {n : Nat} (h : readNat? [c, d] = some n)
    (h' : readNat? [c', d'] = some n) : c = c' ∧ d = d' := by
  have hvalue {c d : Char} (h : readNat? [c, d] = some n) :
      10 * (c.toNat - 48) + (d.toNat - 48) = n := by
    rw [readNat?] at h
    split at h <;> simp_all [Nat.ofDigitChars_cons]
  have hdigit {c : Char} (hc : c.isDigit) : 48 ≤ c.toNat ∧ c.toNat ≤ 57 :=
    Char.isDigit_iff_toNat.1 hc
  obtain ⟨hc, hd⟩ := isDigit_of_readNat? h
  obtain ⟨hc', hd'⟩ := isDigit_of_readNat? h'
  have := hvalue h
  have := hvalue h'
  have := hdigit hc
  have := hdigit hd
  have := hdigit hc'
  have := hdigit hd'
  exact ⟨Char.toNat_inj.1 (by omega), Char.toNat_inj.1 (by omega)⟩

end Workdays.Text
