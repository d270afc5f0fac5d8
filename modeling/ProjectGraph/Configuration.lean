import ProjectGraph.Artifact
import ProjectGraph.Dependency

/-!
Configurations: named buckets of dependencies, constraints and artifacts. A declaration says what a
configuration is to hold; a configuration is a declaration that a project has taken in. Configurations do
not change; a container replaces them.
-/

namespace ProjectGraph

/-- What a configuration may be used for. -/
structure Roles where
  /-- Projects may depend on it. -/
  consumable : Bool
  /-- Its own project may resolve it. -/
  resolvable : Bool
  /-- Dependencies may be declared on it. -/
  declarable : Bool
  deriving DecidableEq, Inhabited

namespace Roles

def every : Roles := ⟨true, true, true⟩

/-- For what a project offers to others. -/
def consumableOnly : Roles := ⟨true, false, false⟩

/-- For what a project keeps to itself. -/
def resolvableOnly : Roles := ⟨false, true, false⟩

end Roles

structure Declaration where
  name : String
  roles : Roles
  /-- If it is deprecated as a target, what to use instead. -/
  consumptionDeprecation : Option (List String)
  /-- The names of the configurations whose contents it has as well. -/
  extendsFrom : List String
  dependencies : List Dependency
  constraints : List Constraint
  artifacts : List Artifact
  deriving BEq, Inhabited

/-- Nothing declared yet. -/
def Declaration.named (name : String) : Declaration where
  name := name
  roles := .every
  consumptionDeprecation := none
  extendsFrom := []
  dependencies := []
  constraints := []
  artifacts := []

structure Configuration extends Declaration where
  owner : ProjectPath
  deriving BEq, Inhabited

end ProjectGraph
