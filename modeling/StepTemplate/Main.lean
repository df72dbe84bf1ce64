import StepTemplate.CommandLine.Run

namespace StepTemplate

/-!
# The program

Reads the files that the command line names, runs the command and reports the outcome.
-/

namespace CommandLine

/-- The variable of the environment with an attribute list. -/
def attributesVariable : String := "ACTIONGROUP_VARIABLE_ATTRIBUTES"

/-- A file with its text, if it can be read. -/
def readFile? (path : String) : IO (Option (String × String)) := do
  try
    return some (path, ← IO.FS.readFile path)
  catch _ => return none

def execute (words : List String) : IO UInt32 := do
  let paths := ((Command.ofWords? words).map Command.paths).getD []
  let files ← paths.filterMapM readFile?
  let outcome := outcome ⟨files⟩ (← IO.getEnv attributesVariable) words
  IO.print outcome.output
  if let some message := outcome.error then
    IO.eprintln ("Error: " ++ message)
  return outcome.exitCode.toUInt32

end CommandLine

end StepTemplate

def main (args : List String) : IO UInt32 :=
  StepTemplate.CommandLine.execute args
