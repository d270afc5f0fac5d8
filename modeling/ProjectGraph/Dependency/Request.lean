import ProjectGraph.Dependency.Attributes

/-!
What a dependency asks for, whatever it points at: the configuration it targets, whether it brings its own
dependencies along, attributes, capabilities, and rules that exclude dependencies below it.
-/

namespace ProjectGraph

/-- `group:name`, with the version if one is given. -/
def coordinates (group name : String) (version : Option String) : String :=
  match version with
  | some v => group ++ ":" ++ name ++ ":" ++ v
  | none => group ++ ":" ++ name

structure Capability where
  group : String
  name : String
  version : Option String
  deriving DecidableEq, Inhabited

def Capability.render (c : Capability) : String := coordinates c.group c.name c.version

/-- Excludes by group, by module name, or by both. -/
structure ExcludeRule where
  group : Option String
  module : Option String
  deriving DecidableEq, Inhabited

/-- What the rule names must be equal, and a rule that names nothing matches nothing. -/
def ExcludeRule.matches (r : ExcludeRule) (group name : String) : Bool :=
  r.group.all (· == group) && r.module.all (· == name) && (r.group.isSome || r.module.isSome)

structure Request where
  targetConfiguration : Option String
  transitive : Bool
  attributes : Attributes
  capabilities : List Capability
  excludes : List ExcludeRule
  deriving DecidableEq

namespace Request

/-- Asks for a configuration and leaves all else open. -/
def targeting (configuration : Option String) : Request :=
  { targetConfiguration := configuration
    transitive := true
    attributes := .empty
    capabilities := []
    excludes := [] }

instance : Inhabited Request := ⟨targeting none⟩

/-- What `r` asks for, but of the configuration that `target` asks for. -/
def copyTo (r target : Request) : Request :=
  { r with targetConfiguration := target.targetConfiguration }

end Request

end ProjectGraph
