import ProjectGraph.Container.Hierarchy
import ProjectGraph.Selection

/-!
Expanding an edge: handing over what its target configuration declares or inherits, one level deep. An
intake is what receives it. If the edge or the intake is not transitive, nothing is looked up and nothing
handed over.
-/

namespace ProjectGraph

/-- Takes in dependencies and constraints in the order in which they come. -/
structure Intake where
  /-- Whether it wants the dependencies of dependencies. -/
  transitive : Bool
  dependencies : List Dependency
  constraints : List Constraint
  deriving Inhabited

namespace Intake

def empty (transitive : Bool) : Intake := ⟨transitive, [], []⟩

def addDependencies (i : Intake) (ds : List Dependency) : Intake :=
  { i with dependencies := i.dependencies ++ ds }

def addConstraints (i : Intake) (cs : List Constraint) : Intake :=
  { i with constraints := i.constraints ++ cs }

end Intake

namespace Store

/-- Whether anything is handed over. -/
def expands (e : Edge) (i : Intake) : Bool := e.request.transitive && i.transitive

/-- Hands over the dependencies, then the constraints. What was handed over before a failure stays. -/
def handOver (k : Container) (c : Configuration) (i : Intake) : Intake × Except BuildError Unit :=
  match k.allDependencies c with
  | .error x => (i, .error x)
  | .ok ds =>
    match k.allConstraints c with
    | .error x => (i.addDependencies ds, .error x)
    | .ok cs => ((i.addDependencies ds).addConstraints cs, .ok ())

/-- Expands an edge whose target configuration is selected already. -/
def expandSelected (s : Store) (e : Edge) (c : Configuration) (i : Intake) :
    Intake × Except BuildError Unit :=
  if expands e i then
    match s.producer e with
    | .error x => (i, .error x)
    | .ok p => handOver p.container c i
  else (i, .ok ())

/-- Expands an edge. -/
def expand (s : Store) (e : Edge) (i : Intake) : Intake × Reporting Unit :=
  if expands e i then
    match s.select e with
    | ⟨notices, .error x⟩ => (i, ⟨notices, .error x⟩)
    | ⟨notices, .ok c⟩ =>
      let (i, result) := s.expandSelected e c i
      (i, ⟨notices, result⟩)
  else (i, .ofExcept (.ok ()))

end Store

end ProjectGraph
