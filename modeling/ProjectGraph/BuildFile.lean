import ProjectGraph.Json.Values

/-!
Build files: the description of a build with all its projects, their configurations and what these declare.
A dependency is written with the path of a project or with the notation of a module; one that has both is
taken as a project if that form can be read, and as a module otherwise.
-/

namespace ProjectGraph

open Json Record

/-- What a configuration depends on, as it is written. -/
inductive DependencySpec where
  | project (path : ProjectPath) (buildsProducer : Bool) (request : Request)
  | module (coordinates : String) (request : Request)
  deriving DecidableEq

structure ConfigurationSpec where
  name : String
  consumable : Bool
  resolvable : Bool
  deprecatedForConsumption : Option (List String)
  extendsFrom : List String
  dependencies : List DependencySpec
  constraints : List Constraint
  artifacts : List Artifact

structure ProjectSpec where
  path : ProjectPath
  group : Option String
  version : Option String
  configurations : List ConfigurationSpec

structure BuildFile where
  rootProject : String
  projects : List ProjectSpec

namespace DependencySpec

/-- The fields of a dependency on a project besides those of its request. -/
def projectRecord : Record (Request → DependencySpec) :=
  DependencySpec.project <$> required "project" ProjectPath.decode
    <*> optional "buildProjectDependencies" decodeBool true []

def moduleRecord : Record (Request → DependencySpec) :=
  DependencySpec.module <$> required "module" decodeText

/-- Keeps the entry, then tries one form after the other. -/
def decode : Decoder DependencySpec := fun place j =>
  let kept := { place with kept := true }
  if j.isSound place.depth then
    match decodeWith projectRecord Request.record "ProjectDependencySpec" kept j with
    | .ok (withRequest, request) => .ok (withRequest request)
    | .error _ =>
      match decodeWith moduleRecord Request.record "ModuleDependencySpec" kept j with
      | .ok (withRequest, request) => .ok (withRequest request)
      | .error _ => .error (.noVariant "DependencySpec")
  else .error .malformed

end DependencySpec

def ConfigurationSpec.record : Record ConfigurationSpec :=
  ConfigurationSpec.mk <$> required "name" decodeText
    <*> optional "consumable" decodeBool true []
    <*> optional "resolvable" decodeBool true []
    <*> optional "deprecatedForConsumption" (decodeOption (decodeList decodeText)) none []
    <*> optional "extendsFrom" (decodeList decodeText) [] []
    <*> optional "dependencies" (decodeList DependencySpec.decode) [] []
    <*> optional "constraints" (decodeList Constraint.decode) [] []
    <*> optional "artifacts" (decodeList Artifact.decode) [] []

def ProjectSpec.record : Record ProjectSpec :=
  ProjectSpec.mk <$> required "path" ProjectPath.decode
    <*> optional "group" (decodeOption decodeText) none []
    <*> optional "version" (decodeOption decodeText) none []
    <*> optional "configurations" (decodeList (ConfigurationSpec.record.decode "ConfigurationSpec")) [] []

namespace BuildFile

def record : Record BuildFile :=
  BuildFile.mk <$> required "rootProject" decodeText
    <*> optional "projects" (decodeList (ProjectSpec.record.decode "ProjectSpec")) [] []

/-- Reads a build file. -/
def parse (text : String) : Except BuildError BuildFile :=
  match decodeDocument (record.decode "BuildFile") text with
  | .ok f => .ok f
  | .error e => .error (.buildFile ("Failed to parse build description: " ++ e.message))

end BuildFile

end ProjectGraph
