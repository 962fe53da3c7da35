import Mathlib.Data.List.TakeWhile
import Mathlib.Tactic.SplitIfs
import Workdays.Date.Text
import Workdays.Proofs.Text.Faithful

/-!
# Reading back the text of a date

A date is read back from its text, in every supported year: a year without a sign has four digits,
and one with a sign is over where its digits are. So a text tells its date, and no blank is in it.
-/

namespace Workdays

variable {rest : List Char}

namespace Text

/-- A numeral begins with a digit. -/
theorem exists_writePadded_eq_cons (width n : Nat) :
    ∃ c cs, writePadded width n = c :: cs ∧ c.isDigit := by
  obtain ⟨hne, hdigits⟩ := isNumeral_writePadded width n
  obtain ⟨c, cs, h⟩ := List.exists_cons_of_ne_nil hne
  exact ⟨c, cs, h, hdigits c (by simp [h])⟩

theorem writePadded_append_ne {width n : Nat} {c : Char} {cs : List Char}
    (hc : c.isDigit = false) : writePadded width n ++ rest ≠ c :: cs := by
  obtain ⟨d, ds, h, hd⟩ := exists_writePadded_eq_cons width n
  rw [h, List.cons_append]
  rintro ⟨⟩
  simp [hc] at hd

theorem dropBlanks_writePadded (width n : Nat) (rest : List Char) :
    dropBlanks (writePadded width n ++ rest) = writePadded width n ++ rest := by
  obtain ⟨c, cs, h, hc⟩ := exists_writePadded_eq_cons width n
  rw [h, List.cons_append, dropBlanks_cons_of_not (isBlank_eq_false_of_isDigit hc)]

/-- A numeral that fills a limit is taken whole, whatever follows it. -/
theorem takeNumber?_writePadded {limit n : Nat} (h : (writeNat n).length ≤ limit)
    (rest : List Char) : takeNumber? limit (writePadded limit n ++ rest) = some (n, rest) := by
  have htake : (writePadded limit n ++ rest).take limit = writePadded limit n :=
    List.take_left' (length_writePadded h)
  have hdigits : (writePadded limit n).takeWhile Char.isDigit = writePadded limit n :=
    List.takeWhile_eq_self_iff.2 (isNumeral_writePadded limit n).2
  simp [takeNumber?, dropBlanks_writePadded, htake, hdigits]

end Text

namespace Date

/-- The digits after a sign are taken up to the dash. -/
theorem takeDigits?_writePadded (width n : Nat) (rest : List Char) :
    takeYear?.takeDigits? (Text.writePadded width n ++ '-' :: rest) = some (n, '-' :: rest) := by
  have hdigits := (Text.isNumeral_writePadded width n).2
  simp [takeYear?.takeDigits?, List.takeWhile_append_of_pos hdigits,
    List.dropWhile_append_of_pos hdigits]

theorem takeYear?_writeYear (year : Int) (rest : List Char) :
    takeYear? (writeYear year ++ '-' :: rest) = some (year, '-' :: rest) := by
  unfold writeYear takeYear?
  split_ifs with hneg hfour
  · have hdash : Text.isBlank '-' = false := by decide
    have hyear : -(year.natAbs : Int) = year := by omega
    rw [List.cons_append, Text.dropBlanks_cons_of_not hdash]
    simp only [takeDigits?_writePadded, Option.bind_eq_bind, Option.bind_some, Option.pure_def, hyear]
  · have hyear : (year.natAbs : Int) = year := by omega
    have hlength : (Text.writeNat year.natAbs).length ≤ 4 :=
      (Nat.length_toDigits_le_iff (by decide) (by decide)).2 (by omega)
    rw [Text.dropBlanks_writePadded]
    split
    · next hminus => exact absurd hminus (Text.writePadded_append_ne (by decide))
    · next hplus => exact absurd hplus (Text.writePadded_append_ne (by decide))
    · simp only [Text.takeNumber?_writePadded hlength, Option.bind_eq_bind,
        Option.bind_some, Option.pure_def, hyear]
  · have hplus : Text.isBlank '+' = false := by decide
    have hyear : (year.natAbs : Int) = year := by omega
    rw [List.cons_append, Text.dropBlanks_cons_of_not hplus]
    simp only [takeDigits?_writePadded, Option.bind_eq_bind, Option.bind_some, Option.pure_def, hyear]

@[simp] theorem read?_write (d : Date) : read? d.write = some d := by
  obtain ⟨-, hmonth, hday⟩ := d.isDate
  have hdays := daysInMonth_le d.year d.month
  have htwo {n : Nat} (h : n < 10 ^ 2) : (Text.writeNat n).length ≤ 2 :=
    (Nat.length_toDigits_le_iff (by decide) (by decide)).2 h
  have htakeMonth := Text.takeNumber?_writePadded (htwo (n := d.month) (by omega))
  have htakeDay := Text.takeNumber?_writePadded (htwo (n := d.day) (by omega)) []
  rw [List.append_nil] at htakeDay
  have hdash (cs : List Char) : ['-'].isPrefixOf? ('-' :: cs) = some cs := rfl
  simp [read?, write, takeYear?_writeYear, hdash, htakeMonth, htakeDay, ofYearMonthDay?_eq_some_iff]

theorem isPlain_write (d : Date) : Text.IsPlain d.write := by
  have hnumber (width n : Nat) := (Text.isNumeral_writePadded width n).isPlain
  have hyear : Text.IsPlain (writeYear d.year) := by
    unfold writeYear
    split
    · exact .cons (by decide) (hnumber _ _)
    · split
      · exact hnumber _ _
      · exact .cons (by decide) (hnumber _ _)
  have hpart (width n : Nat) : Text.IsPlain ('-' :: Text.writePadded width n) :=
    .cons (by decide) (hnumber width n)
  exact (hyear.append (hpart 2 d.month)).append (hpart 2 d.day)

theorem write_injective : Function.Injective write := by
  intro d d' h
  have hread := congrArg read? h
  rw [read?_write, read?_write] at hread
  exact Option.some.inj hread

end Date

end Workdays
