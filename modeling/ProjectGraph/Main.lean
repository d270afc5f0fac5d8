import ProjectGraph.CommandLine.Run

/-!
The program: takes arguments, environment and build file from the system, and prints what the run gives.
-/

namespace ProjectGraph

/-- What is said of a command line that is not carried out. -/
def UsageError.message : UsageError → String
  | .help => "usage: projdep [-v] [-b FILE] [--warning-mode MODE] check|closure|tasks|files ..."
  | .version => "projdep 0.1.0"
  | .nothingGiven => "nothing to do; try --help"
  | .missingCommand => "a command is missing"
  | .unknownCommand => "no such command"
  | .unknownArgument => "unexpected argument"
  | .missingArgument => "an argument is missing"
  | .missingValue => "a value is missing"
  | .badValue => "a value is not valid"
  | .unwantedValue => "a value is not wanted"
  | .repeated => "an argument is given twice"

/-- The content of a file, if it can be read. -/
def readContent? (path : String) : IO (Option ByteArray) := do
  try return some (← IO.FS.readBinFile path) catch _ => return none

def runProgram (args : Arguments) : IO UInt32 := do
  let mode ← IO.getEnv Settings.warningModeVariable
  let file ← IO.getEnv Settings.buildFileVariable
  let setting? (name : String) : Option String :=
    if name == Settings.warningModeVariable then mode
    else if name == Settings.buildFileVariable then file
    else none
  let content ← match args.settings setting? with
    | .ok s => readContent? s.buildFile.text
    | .error _ => pure none
  let report := args.run setting? fun _ => content
  report.warnings.forM fun line => IO.eprintln (" WARN " ++ line)
  report.output.forM IO.println
  match report.result with
  | .ok () => return 0
  | .error e =>
    IO.eprintln ("Error: " ++ e.message)
    return 1

end ProjectGraph

def main (args : List String) : IO UInt32 :=
  match ProjectGraph.Arguments.parse args with
  | .ok parsed => ProjectGraph.runProgram parsed
  | .error .help => do
    IO.println ProjectGraph.UsageError.help.message
    return 0
  | .error .version => do
    IO.println ProjectGraph.UsageError.version.message
    return 0
  | .error e => do
    IO.eprintln e.message
    return 2
