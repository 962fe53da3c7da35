import Workdays.Text.Blank
import Workdays.Text.Split

/-!
# Values with a written form

A type of values that are written in one way and read in perhaps several. Reading a whole text
reports why it fails: the text is blank, or it is not in the form. A list of values is written with
a separator between them, and one bad segment spoils it.

## Main definitions

* `Written`: the class of these types.
* `ReadError`: why a text is refused.
* `parse?`, `parse`: the value of a text, without and with the reason of a failure.
* `parseList?`, `parseList`: the same for lists.
-/

namespace Workdays

/-- What a text is asked for, as the message on a blank one calls it. -/
inductive Argument where
  | value
  | values
  | separator
  | line
  deriving DecidableEq, Repr

def Argument.name : Argument → String
  | .value => "value"
  | .values => "values"
  | .separator => "separator"
  | .line => "line"

inductive ReadError where
  /-- The text is blank. -/
  | blank (argument : Argument)
  /-- The text is no written form of a value of the kind. -/
  | malformed (kind : String) (text : String)
  deriving DecidableEq, Repr

def ReadError.message : ReadError → String
  | .blank argument => s!"`{argument.name}` cannot be empty or only whitespaces"
  | .malformed kind text => s!"'{text}' is an invalid {kind}"

/-- A type whose values have a written form. -/
class Written (α : Type) where
  /-- The name of the values in messages. -/
  kind : String
  /-- What a text of one value is called in messages. -/
  argument : Argument := .value
  /-- The value that a text denotes. -/
  read? : List Char → Option α
  /-- The form in which a value is written. -/
  write : α → List Char

namespace Written

variable {α : Type} [Written α]

def text (a : α) : String := String.ofList (write a)

@[simp] theorem toList_text (a : α) : (text a).toList = write a := String.toList_ofList

theorem eq_text_iff {a : α} {s : String} : s = text a ↔ s.toList = write a := by
  rw [← String.toList_inj, toList_text]

/-- The values of a list, with a separator that is not empty between each two. -/
def readList? (α : Type) [Written α] (sep cs : List Char) : Option (List α) :=
  if sep = [] then none else (Text.splitOn sep cs).mapM read?

def writeList (sep : List Char) (as : List α) : List Char := sep.intercalate (as.map write)

def readSegment (α : Type) [Written α] (segment : List Char) : Except ReadError α :=
  match read? segment with
  | some a => .ok a
  | none => .error (.malformed (kind α) (String.ofList segment))

end Written

def parse? (α : Type) [Written α] (s : String) : Option α := Written.read? s.toList

/-- The value that a text denotes, or why there is none. -/
def parse (α : Type) [Written α] (s : String) : Except ReadError α :=
  if Text.AllBlank s.toList then .error (.blank (Written.argument α)) else
    match parse? α s with
    | some a => .ok a
    | none => .error (.malformed (Written.kind α) s)

def parseList? (α : Type) [Written α] (sep s : String) : Option (List α) :=
  Written.readList? α sep.toList s.toList

/-- The values that a list denotes, or why there are none: the first bad segment is reported. -/
def parseList (α : Type) [Written α] (sep s : String) : Except ReadError (List α) :=
  if Text.AllBlank s.toList then .error (.blank .values)
  else if sep = "" then .error (.blank .separator)
  else (Text.splitOn sep.toList s.toList).mapM (Written.readSegment α)

/-- Reading with reasons succeeds on the texts that are neither blank nor refused. -/
theorem parse_eq_ok_iff {α : Type} [Written α] {s : String} {a : α} :
    parse α s = .ok a ↔ ¬ Text.AllBlank s.toList ∧ parse? α s = some a := by
  unfold parse
  split
  · simp [*]
  · cases h : parse? α s <;> simp [*]

/-- The reason of a failure is told by the text alone. -/
theorem parse_eq_error_iff {α : Type} [Written α] {s : String} {e : ReadError} :
    parse α s = .error e ↔
      Text.AllBlank s.toList ∧ e = .blank (Written.argument α) ∨
        ¬ Text.AllBlank s.toList ∧ parse? α s = none ∧ e = .malformed (Written.kind α) s := by
  unfold parse
  split
  · simp [*, eq_comm]
  · cases h : parse? α s <;> simp [*, eq_comm]

end Workdays
