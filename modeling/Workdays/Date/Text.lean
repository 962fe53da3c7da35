import Workdays.Date.Basic
import Workdays.Text.Numeral
import Workdays.Text.Written

/-!
# The text of dates

A date is written `YYYY-MM-DD`. Years outside 0 to 9999 carry a sign and at least four digits. The
reader is less strict: blanks may precede each number, a year without a sign has up to four digits,
and a month or a day has one or two.

## Main definitions

* `Date.write`: the form of a date.
* `Date.read?`: the date of a text.
-/

namespace Workdays

namespace Text

/-- The number at the front of a text, of at most so many digits, and the rest. Blanks before it are
skipped. -/
def takeNumber? (limit : Nat) (cs : List Char) : Option (Nat × List Char) :=
  let digits := ((dropBlanks cs).take limit).takeWhile Char.isDigit
  (readNat? digits).map fun n => (n, (dropBlanks cs).drop digits.length)

end Text

namespace Date

def writeYear (year : Int) : List Char :=
  if year < 0 then '-' :: Text.writePadded 4 year.natAbs
  else if year ≤ 9999 then Text.writePadded 4 year.natAbs
  else '+' :: Text.writePadded 4 year.natAbs

def write (d : Date) : List Char :=
  writeYear d.year ++ '-' :: Text.writePadded 2 d.month ++ '-' :: Text.writePadded 2 d.day

/-- The year at the front of a text, and the rest. After a sign it may have any number of digits,
which follow the sign at once. -/
def takeYear? (cs : List Char) : Option (Int × List Char) :=
  match Text.dropBlanks cs with
  | '-' :: rest => do
    let (n, rest) ← takeDigits? rest
    pure (-n, rest)
  | '+' :: rest => do
    let (n, rest) ← takeDigits? rest
    pure (n, rest)
  | cs => do
    let (n, rest) ← Text.takeNumber? 4 cs
    pure (n, rest)
where
  /-- The number that a text starts with, however long. -/
  takeDigits? (cs : List Char) : Option (Nat × List Char) :=
    (Text.readNat? (cs.takeWhile Char.isDigit)).map fun n => (n, cs.dropWhile Char.isDigit)

/-- Reads a year, a month and a day with a dash after each of the first two. -/
def read? (cs : List Char) : Option Date := do
  let (year, cs) ← takeYear? cs
  let cs ← ['-'].isPrefixOf? cs
  let (month, cs) ← Text.takeNumber? 2 cs
  let cs ← ['-'].isPrefixOf? cs
  let (day, cs) ← Text.takeNumber? 2 cs
  if cs = [] then ofYearMonthDay? year month day else none

instance : Written Date where
  kind := "date"
  read? := read?
  write := write

end Date

end Workdays
