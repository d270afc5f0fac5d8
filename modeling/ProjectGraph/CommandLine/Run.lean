import ProjectGraph.BuildFile.Load
import ProjectGraph.CommandLine.Commands
import ProjectGraph.Settings

/-!
Running a command line: settings first, then the build file, then the command. Deprecations are settled even
when the command has failed, and the failure of the command counts more than theirs.
-/

namespace ProjectGraph

/-- What a run leaves behind. -/
structure RunReport where
  output : List String
  /-- All notices that the reporter of the build has at the end, whether or not they were shown. -/
  recorded : List Notice
  warnings : List String
  result : Except BuildError Unit

/-- What is said of a build file that cannot be read. The system may say more of why. -/
def BuildFile.unreadable (path : FilePath) : BuildError := .buildFile ("Failed to read " ++ path.text)

/-- Reads the build file at a path. Content that is not UTF-8 is no text, and counts as not read. -/
def BuildFile.read (read? : String → Option ByteArray) (path : FilePath) : Except BuildError BuildFile :=
  match read? path.text with
  | none => .error (unreadable path)
  | some content =>
    match String.fromUTF8? content with
    | none => .error (unreadable path)
    | some text => BuildFile.parse text

namespace Arguments

/-- The settings of the environment, with what the command line says in place of theirs. -/
def settings (args : Arguments) (setting? : String → Option String) : Except BuildError Settings :=
  match Settings.load setting? with
  | .error e => .error (.settings ("Could not load config: " ++ e.message))
  | .ok s => .ok {
      warningMode := args.warningMode.getD s.warningMode
      buildFile := (args.build.map FilePath.of).getD s.buildFile }

/-- The build that the command works on, with its reporter at the number 0. -/
def openBuild (read? : String → Option ByteArray) (s : Settings) : Except BuildError Build := do
  let file ← BuildFile.read read? s.buildFile
  let (store, reporter) := Store.empty.addReporter s.warningMode
  file.load store reporter

/-- Carries out a command and settles its deprecations. -/
def conclude (b : Build) (command : Command) : RunReport :=
  let t := b.carryOut command
  let (store, shown) := b.store.deliverAll t.notices
  let reporter := store.reporter b.tree.reporter
  let (last, finished) := reporter.finish
  { output := t.lines
    recorded := reporter.notices
    warnings := shown ++ last
    result := match t.result, finished with
      | .error e, _ => .error e
      | .ok (), .error e => .error e
      | .ok (), .ok _ => .ok () }

def run (args : Arguments) (setting? : String → Option String) (read? : String → Option ByteArray) :
    RunReport :=
  match args.settings setting? with
  | .error e => ⟨[], [], [], .error e⟩
  | .ok s =>
    match openBuild read? s with
    | .error e => ⟨[], [], [], .error e⟩
    | .ok b => conclude b args.command

end Arguments

end ProjectGraph
