import Workdays.Rule.Description

/-!
# Lines

The line of a rule has four fields, then a description in double brackets and a field of working
periods, either of which may be missing, and then perhaps a comment after a `#`. Blanks stand
between the fields and may stand around each part. A field is a run of characters that are neither
blank nor `#`.

## Main definitions

* `LineParts`: the parts of a line, as they stand there.
* `LineParts.read?`: the parts of a line.
-/

namespace Workdays

structure LineParts where
  year : List Char
  month : List Char
  dayOfMonth : List Char
  dayOfWeek : List Char
  description : Option (List Char)
  periods : Option (List Char)
  deriving DecidableEq

namespace LineParts

def isFieldChar (c : Char) : Bool := !Text.isBlank c && c != '#'

def takeField? (cs : List Char) : Option (List Char × List Char) :=
  if cs.takeWhile isFieldChar = [] then none
  else some (cs.takeWhile isFieldChar, cs.dropWhile isFieldChar)

/-- The rest of a text after the blanks at its front, of which there must be one. -/
def skipBlanks? : List Char → Option (List Char)
  | [] => none
  | c :: cs => if Text.isBlank c then some (Text.dropBlanks cs) else none

/-- The text up to the end of a description, and the rest after it. -/
def takeDescribed? : List Char → Option (List Char × List Char)
  | [] => none
  | c :: cs =>
    match Description.closed? (c :: cs) with
    | some rest => some ([], rest)
    | none => (takeDescribed? cs).map fun (text, rest) => (c :: text, rest)

/-- The description at the front of a text, and the rest. Brackets that are never closed are no
description, and neither is anything else. -/
def takeDescription (cs : List Char) : Option (List Char) × List Char :=
  match (['[', '['].isPrefixOf? cs).bind takeDescribed? with
  | some (text, rest) => (some text, rest)
  | none => (none, cs)

/-- The field of working periods at the front of a text, if any, and the rest. -/
def takePeriods (cs : List Char) : Option (List Char) × List Char :=
  match takeField? cs with
  | some (periods, rest) => (some periods, rest)
  | none => (none, cs)

/-- The field after the blanks at the front of a text, and the rest. -/
def takeNextField? (cs : List Char) : Option (List Char × List Char) :=
  (skipBlanks? cs).bind takeField?

/-- The description and the working periods at the front of a text, and the rest. A blank sets
them off from the fields, and without it there are none. -/
def takeOptionalParts (cs : List Char) :
    Option (List Char) × Option (List Char) × List Char :=
  match skipBlanks? cs with
  | none => (none, none, cs)
  | some cs =>
    let (description, cs) := takeDescription cs
    let (periods, cs) := takePeriods (Text.dropBlanks cs)
    (description, periods, cs)

/-- A line ends after its parts, or goes on with a comment. -/
def isLineEnd (cs : List Char) : Bool :=
  match Text.dropBlanks cs with
  | [] => true
  | c :: _ => c == '#'

def read? (line : List Char) : Option LineParts := do
  let (year, cs) ← takeField? (Text.dropBlanks line)
  let (month, cs) ← takeNextField? cs
  let (dayOfMonth, cs) ← takeNextField? cs
  let (dayOfWeek, cs) ← takeNextField? cs
  let (description, periods, cs) := takeOptionalParts cs
  if isLineEnd cs then some ⟨year, month, dayOfMonth, dayOfWeek, description, periods⟩ else none

end LineParts

end Workdays
