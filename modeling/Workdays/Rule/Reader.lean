import Workdays.Rule.Basic
import Workdays.Rule.Line

/-!
# Reading rules

The parts of a line are read in order: the fields of the pattern, the working periods and last the
description. The first part that is refused is the reason why the line is.

## Main definitions

* `Rejection`: why the line of a rule is refused.
* `Rule.ofLine`: the rule of a line, or why there is none.
-/

namespace Workdays

inductive Rejection where
  /-- The line does not have the parts of a rule. -/
  | layout (line : String)
  /-- A field of the pattern is no list of selectors of its kind. -/
  | field (kind : String) (text : String)
  /-- The last field is no list of periods. -/
  | periods (text : String)
  /-- The description cannot be written. -/
  | description (fault : DescriptionFault)
  deriving DecidableEq

def Rejection.message : Rejection → String
  | .layout line => s!"Invalid structure for day rule `{line}`"
  | .field kind text => s!"Invalid {kind} in day rule: `{text}`"
  | .periods text => s!"Invalid working periods in day rule: `{text}`"
  | .description fault => s!"Invalid day rule: {fault.message}"

namespace Rule

def readField (σ : Type) [Written σ] (cs : List Char) : Except Rejection (List σ) :=
  match Written.readList? σ [','] cs with
  | some selectors => .ok selectors
  | none => .error (.field (Written.kind σ) (String.ofList cs))

/-- The working periods of a line; without the field there are none. -/
def readPeriods : Option (List Char) → Except Rejection (List Period)
  | none => .ok []
  | some cs =>
    match Written.readList? Period [','] cs with
    | some periods => .ok periods
    | none => .error (.periods (String.ofList cs))

def ofLineParts (parts : LineParts) : Except Rejection Rule := do
  let years ← readField YearSelector parts.year
  let months ← readField (Selector .months) parts.month
  let daysOfMonth ← readField (Selector .daysOfMonth) parts.dayOfMonth
  let daysOfWeek ← readField (Selector .daysOfWeek) parts.dayOfWeek
  let periods ← readPeriods parts.periods
  (ofParts ⟨years, months, daysOfMonth, daysOfWeek⟩ (parts.description.map String.ofList)
    periods).mapError .description

/-- The rule of a line that is not blank, or why there is none. -/
def ofLine (line : List Char) : Except Rejection Rule :=
  match LineParts.read? line with
  | some parts => ofLineParts parts
  | none => .error (.layout (String.ofList line))

instance : Written Rule where
  kind := "day rule"
  argument := .line
  read? line := (ofLine line).toOption
  write := write

end Rule

end Workdays
