import ProjectGraph.Path.Project

/-!
What can go wrong in a build, by cause, and the message of each cause.
-/

namespace ProjectGraph

inductive BuildError where
  /-- The system could not read or write. -/
  | io (detail : String)
  /-- A value could not be decoded. -/
  | json (detail : String)
  | noSuchConfiguration (project name : String)
  /-- The selected configuration exists but is no target for dependencies. -/
  | notConsumable (project configuration : String)
  | duplicateConfiguration (project name : String)
  | configurationCycle (project name : String)
  | unknownProject (path : String)
  | invalidPath (detail : String)
  | settings (detail : String)
  | buildFile (detail : String)
  /-- Deprecations were reported in a build that must not have any. -/
  | deprecationsFailed (count : Nat)
  | other (detail : String)
  deriving DecidableEq

namespace BuildError

def message : BuildError → String
  | .io detail => "I/O Error: " ++ detail
  | .json detail => "JSON Parsing Error: " ++ detail
  | .noSuchConfiguration project name =>
    "Configuration with name '" ++ name ++ "' not found in " ++ project ++ "."
  | .notConsumable project configuration =>
    "Selected configuration '" ++ configuration ++ "' on '" ++ project ++
      "' but it can't be used as a project dependency because it isn't intended for consumption by other components."
  | .duplicateConfiguration project name =>
    "Configuration '" ++ name ++ "' already exists in " ++ project ++ "."
  | .configurationCycle project name =>
    "Configuration hierarchy of '" ++ name ++ "' in " ++ project ++ " contains a cycle."
  | .unknownProject path => "Project with path '" ++ path ++ "' could not be found."
  | .invalidPath detail => "Invalid path '" ++ detail ++ "'"
  | .settings detail => "Configuration Error: " ++ detail
  | .buildFile detail => "Build File Error: " ++ detail
  | .deprecationsFailed count =>
    "Deprecated features were used in this build (" ++ toString count ++
      " deprecation(s)), failing due to warning mode 'fail'."
  | .other detail => "Generic Error: " ++ detail

/-- A path that cannot be read or extended. -/
def ofPathFault (fault : PathFault) : BuildError := .invalidPath fault.text

end BuildError

end ProjectGraph
