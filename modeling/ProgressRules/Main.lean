import ProgressRules.CommandLine.Run
import ProgressRules.Document.Yaml

/-! The entry point of the program with commands. -/

namespace ProgressRules

namespace CommandLine

def readFile (name : Text) : IO (Option Text) := do
  match ← (IO.FS.readFile (String.ofList name)).toBaseIO with
  | .ok content => return some content.toList
  | .error (.noFileOrDirectory ..) => return none
  | .error error => throw error

def writeEntry (entry : Log.Entry) : IO Unit :=
  IO.eprintln s!"{String.ofList entry.level.name} {String.ofList entry.message}"

def finish : Except Failure Outcome → IO UInt32
  | .ok outcome => do
    outcome.log.forM writeEntry
    IO.print (String.ofList outcome.output)
    IO.eprint (String.ofList outcome.errorOutput)
    return outcome.exitCode.toUInt32
  | .error failure => do
    IO.eprintln (String.ofList failure.message)
    return 1

end CommandLine

end ProgressRules

open ProgressRules CommandLine in
def main (arguments : List String) : IO UInt32 := do
  finish (← run Yaml.read readFile .commands (arguments.map String.toList))
