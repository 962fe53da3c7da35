import Workdays.Rule.Description
import Workdays.Rule.Pattern
import Workdays.Time.Period

/-!
# Rules

A rule gives the dates of a pattern their working periods and a description. Days without working
periods are not worked. The form of a rule is its pattern, its description in double brackets and
its periods with a comma between each two.

## Main definitions

* `Rule`: a pattern, a description and working periods.
* `Rule.ofParts`: the rule of a description that is yet to be checked.
* `Rule.write`: the form.
-/

namespace Workdays

/-- What holds of the dates of a pattern. -/
structure Rule where
  pattern : Pattern
  description : Option Description
  periods : List Period
  deriving DecidableEq

namespace Rule

/-- The rule of all dates, without description or working periods. -/
instance : Inhabited Rule := ⟨default, none, []⟩

/-- The rule of a description that is yet to be checked; a blank one is dropped. -/
def ofParts (pattern : Pattern) (description : Option String) (periods : List Period) :
    Except DescriptionFault Rule :=
  match description with
  | none => .ok ⟨pattern, none, periods⟩
  | some text => (Description.ofText text).map fun description => ⟨pattern, description, periods⟩

def Selects (r : Rule) (d : Date) : Prop := r.pattern.Selects d

instance (r : Rule) (d : Date) : Decidable (r.Selects d) :=
  inferInstanceAs (Decidable (r.pattern.Selects d))

def IsWorking (r : Rule) : Prop := r.periods ≠ []

instance (r : Rule) : Decidable r.IsWorking := inferInstanceAs (Decidable (_ ≠ _))

def descriptionText (r : Rule) : Option String := r.description.map Description.text

/-- The form of a description and of working periods, with a blank before each. -/
def writeTail (description : Option String) (periods : List Period) : List Char :=
  (match description with
    | none => []
    | some text => ' ' :: Description.write text)
  ++ (match periods with
    | [] => []
    | periods => ' ' :: Written.writeList [','] periods)

def write (r : Rule) : List Char := r.pattern.write ++ writeTail r.descriptionText r.periods

def text (r : Rule) : String := String.ofList r.write

end Rule

end Workdays
