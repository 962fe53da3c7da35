import Workdays.Text.Blank

/-!
# Descriptions

A description is written between `[[` and `]]` and ends at the first `]]` after which working
periods, a comment or the end of the line follow. So it cannot hold a line break, nor a `]]` after
which something follows that reads as working periods or as a comment.

## Main definitions

* `Description`: the texts that can be written as a description.
* `Description.ofText`: the description of a text; a blank text is none.
* `Description.closed?`: the rest of a line after the end of a description.
-/

namespace Workdays

namespace Description

/-- The text starts like working periods, with `HH:MM-`. -/
def startsPeriod : List Char → Bool
  | h₁ :: h₂ :: ':' :: m₁ :: m₂ :: '-' :: _ =>
    h₁.isDigit && h₂.isDigit && m₁.isDigit && m₂.isDigit
  | _ => false

/-- The text starts like working periods or like a comment. -/
def startsNextPart : List Char → Bool
  | '#' :: _ => true
  | cs => startsPeriod cs

/-- What follows the `]]` that a text starts with. -/
def afterBrackets? : List Char → Option (List Char)
  | ']' :: ']' :: rest => some rest
  | _ => none

/-- A `]]` somewhere in the text is followed, blanks apart, by what reads as working periods or as
a comment. -/
def isCut : List Char → Bool
  | [] => false
  | c :: cs =>
    (afterBrackets? (c :: cs)).any (fun rest => startsNextPart (Text.dropBlanks rest)) || isCut cs

/-- The rest of a line that starts with the `]]` of a description: working periods, a comment or
nothing follows, blanks apart. -/
def closed? (cs : List Char) : Option (List Char) :=
  (afterBrackets? cs).filter fun rest =>
    (Text.dropBlanks rest).isEmpty || startsNextPart (Text.dropBlanks rest)

end Description

/-- A text that can be written as a description. -/
structure Description where
  text : String
  notBlank : ¬ Text.AllBlank text.toList
  oneLine : '\n' ∉ text.toList ∧ '\r' ∉ text.toList
  notCut : Description.isCut text.toList = false
  deriving DecidableEq

inductive DescriptionFault where
  /-- The text has a line break. -/
  | severalLines
  /-- The text would be read up to one of its `]]` only. -/
  | cut (text : String)
  deriving DecidableEq

def DescriptionFault.message : DescriptionFault → String
  | .severalLines => "invalid argument: a description can't span over multiple lines"
  | .cut text => s!"invalid argument: description `{text}` would be cut at its `]]`"

namespace Description

/-- The description of a text, none for a blank one. Line breaks are checked first. -/
def ofText (text : String) : Except DescriptionFault (Option Description) :=
  if hb : Text.AllBlank text.toList then .ok none
  else if hl : '\n' ∉ text.toList ∧ '\r' ∉ text.toList then
    if hc : isCut text.toList = false then .ok (some ⟨text, hb, hl, hc⟩)
    else .error (.cut text)
  else .error .severalLines

def write (text : String) : List Char := ['[', '['] ++ text.toList ++ [']', ']']

@[simp] theorem ofText_text (d : Description) : ofText d.text = .ok (some d) := by
  rw [ofText, dif_neg d.notBlank, dif_pos d.oneLine, dif_pos d.notCut]

end Description

end Workdays
