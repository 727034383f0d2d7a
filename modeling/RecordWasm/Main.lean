import RecordWasm.Cli.Command
import RecordWasm.Cli.Session

/-!
# The program

Reads the file that the command line names, runs the command and does what it says.
-/

open RecordWasm Cli

/-- The text of a file, if it can be read. -/
def readText (path : String) : IO (Option String) :=
  try return some (← IO.FS.readFile path)
  catch _ => return none

def main (words : List String) : IO UInt32 := do
  let source ←
    match Options.ofWords words with
    | .ok options => readText options.input
    | .error _ => pure none
  let outcome (writable : Bool) : Outcome :=
    run ⟨fun _ => source, fun _ => writable⟩ words
  let done ←
    try
      for (path, bytes) in (outcome true).written do
        IO.FS.writeBinFile path ⟨bytes.toArray⟩
      pure (outcome true)
    catch _ => pure (outcome false)
  IO.print done.stdout
  IO.eprint done.stderr
  return done.exit
