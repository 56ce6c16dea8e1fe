import GrammarFormat.Command.Run

/-!
# The program

Looks at the files that the command line names, lets `Command.run` decide, and does what it says.
-/

namespace GrammarFormat

/-- What is found at a path. -/
def lookAt (path : String) : IO FileEntry := do
  try
    return .file (← IO.FS.readBinFile path)
  catch e =>
    match e with
    | .inappropriateType _ code _ => return if code = 21 then .directory else .blocked
    | _ => return .missing

/-- Does what a run decided, and gives its exit status. -/
def Command.Outcome.perform (outcome : Command.Outcome) : IO UInt32 := do
  let stderr ← IO.getStderr
  match outcome.written? with
  | some (path, text) =>
    try
      IO.FS.writeFile path text
    catch e =>
      stderr.putStrLn (Command.programName ++ ": cannot write " ++ path ++ ": " ++ toString e)
      return 2
  | none => pure ()
  IO.print outcome.output
  for line in outcome.errors do
    stderr.putStrLn line
  return outcome.status.toUInt32

end GrammarFormat

open GrammarFormat

def main (args : List String) : IO UInt32 := do
  let entries ← (Command.paths args).mapM fun path => return (path, ← lookAt path)
  let files : Files := fun path => ((entries.find? (·.1 == path)).map (·.2)).getD .missing
  let stdin ← if Command.readsStdin args then (← IO.getStdin).readBinToEnd else pure .empty
  (Command.run files stdin args).perform
