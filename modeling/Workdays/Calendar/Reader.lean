import Workdays.Calendar.Basic
import Workdays.Text.Lines

/-!
# Reading calendars

A calendar has one rule on a line. Blank lines and lines that start with `#`, blanks apart, say
nothing but count. Reading stops at the first line that is no rule.

## Main definitions

* `Calendar.numbered`, `Calendar.ruleLines`: the lines that hold rules, with their numbers.
* `Calendar.parse`, `Calendar.parseLogged`: the calendar of a text.
-/

namespace Workdays.Calendar

/-- The line has something to say: it is neither blank nor a comment. -/
def isRuleLine (line : List Char) : Bool :=
  match Text.dropBlanks line with
  | [] => false
  | c :: _ => c != '#'

/-- The lines that hold rules, with their numbers among all lines, the first of which has a given
number. -/
def numbered (k : Nat) (lines : List (List Char)) : List (Nat × List Char) :=
  (lines.zipIdx k).filterMap fun (line, number) =>
    if isRuleLine line then some (number, line) else none

def ruleLines (text : List Char) : List (Nat × List Char) := numbered 1 (Text.lines text)

/-- The rules of numbered lines, up to the first that is no rule. -/
def readRules : List (Nat × List Char) → Logged (Except CalendarError (List Rule))
  | [] => ⟨.ok [], []⟩
  | (number, line) :: rest =>
    match Rule.parseLogged (String.ofList line) with
    | ⟨.error e, events⟩ => ⟨.error (.rule number e), events⟩
    | ⟨.ok rule, events⟩ =>
      let ⟨rules, more⟩ := readRules rest
      ⟨rules.map (rule :: ·), events ++ more⟩

/-- The calendar of a text, in which days without a rule are not worked. Why there is none, or how
many rules it has, is told. -/
def parseLogged (text : String) : Logged (Except CalendarError Calendar) :=
  match readRules (ruleLines text.toList) with
  | ⟨.ok rules, events⟩ => ⟨.ok ⟨rules, .nonWorking⟩, events ++ [.loaded rules.length]⟩
  | ⟨.error e, events⟩ => ⟨.error e, events⟩

def parse (text : String) : Except CalendarError Calendar := (parseLogged text).result

end Workdays.Calendar
