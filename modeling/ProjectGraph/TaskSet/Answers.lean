import ProjectGraph.Answers
import ProjectGraph.Dependency.Destination
import ProjectGraph.TaskSet.Visit

/-!
The answers that a walk over build nodes keeps: what the edges to a destination bring. So a walk looks up each
destination once, however many edges lead there and however often they come up.
-/

namespace ProjectGraph

namespace Store

/-- What the edges to a destination bring; nothing can be said if the project is gone. -/
def destinationNodes (s : Store) (d : Destination) : Option (Reporting (List BuildNode)) :=
  (s.project? d.producer).map fun p => do
    let c ← selectFrom p d.target
    let artifacts ← .ofExcept (p.container.allArtifacts c)
    return .configuration d.producer c :: artifacts.map .artifact

theorem edgeNodes_eq (s : Store) (e : Edge) : s.edgeNodes e =
    if e.buildsProducer then
      (s.destinationNodes e.destination).getD (.fail (.unknownProject e.path.render))
    else pure [] := by
  unfold edgeNodes destinationNodes
  split
  · simp only [select, producer, Edge.destination]
    cases s.project? e.producer <;> rfl
  · rfl

/-- The answers on destinations that a walk keeps. -/
abbrev NodeAnswers (s : Store) : Type := Answers s.destinationNodes

namespace NodeAnswers

variable {s : Store}

/-- The nodes of an edge; an edge that does not build its producer asks nothing. -/
def edgeNodes (answers : NodeAnswers s) (e : Edge) : { nodes // nodes = s.edgeNodes e } × NodeAnswers s :=
  if builds : e.buildsProducer then
    let (found, answers) := answers.ask e.destination
    (⟨found.val.getD (.fail (.unknownProject e.path.render)), by
      rw [edgeNodes_eq, if_pos builds, found.property]⟩, answers)
  else (⟨pure [], by rw [edgeNodes_eq, if_neg builds]⟩, answers)

/-- Lists the nodes of a task dependency. -/
def visit (answers : NodeAnswers s) :
    (d : TaskDependency) → { listed // listed = s.visit d } × NodeAnswers s
  | .ofEdge e =>
    let (nodes, answers) := answers.edgeNodes e
    (⟨listAll nodes.val, by rw [nodes.property, Store.visit]⟩, answers)
  | .listing nodes failure => (⟨s.visit (.listing nodes failure), rfl⟩, answers)

end NodeAnswers

end Store

end ProjectGraph
