import Workdays.Command

/-!
# The command line

Reads the file of rules, prints the output of the command and complains on the error stream.
-/

namespace Workdays

/-- The content of a file, if it can be read as text. -/
def contentOf (path : String) : IO (Option String) :=
  try
    return some (← IO.FS.readFile path)
  catch _ =>
    return none

/-- Runs the command with the files of the machine. -/
def runCommand (args : List String) : IO UInt32 := do
  let content ← match Invocation.ofArgs? args with
    | none => pure none
    | some invocation => contentOf invocation.rules
  let outcome := Outcome.ofArgs (fun _ => content) args
  IO.print outcome.output
  if let some error := outcome.complaint then
    IO.eprintln s!"Error: {error.message}"
  return outcome.exitCode

end Workdays

def main (args : List String) : IO UInt32 := Workdays.runCommand args
