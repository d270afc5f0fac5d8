import ProjectGraph.Closure
import ProjectGraph.TaskSet

/-!
Using a dependency directly, without a configuration that declares it. Both ways are deprecated: each use
raises a notice first, and then gives what the walk over the one edge gives.
-/

namespace ProjectGraph

namespace Store

/-- The files of an edge, with those of its own dependencies if asked for. -/
def resolveFiles (s : Store) (e : Edge) (transitive : Bool) : Reporting (List FilePath) := do
  let producer ← .ofExcept (s.producer e)
  .raise producer.reporter .directResolution
  let closure ← s.closure ((Intake.empty transitive).addDependencies [.project e])
  return closure.files

/-- All files of an edge. -/
def resolve (s : Store) (e : Edge) : Reporting (List FilePath) := s.resolveFiles e true

/-- The tasks of an edge, asked of the edge itself. -/
def buildDependencies (s : Store) (e : Edge) : Reporting TaskDependency := do
  let producer ← .ofExcept (s.producer e)
  .raise producer.reporter .buildDependencies
  return .ofEdge e

end Store

end ProjectGraph
