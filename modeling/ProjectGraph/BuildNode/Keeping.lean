import ProjectGraph.BuildNode
import ProjectGraph.FirstOccurrences

/-!
Build nodes together with the projects that they keep: those of the configurations that they name, however
deep these are listed. A listing may hold one task dependency many times over, and that one another. So the
projects are put together when a listing is made, from those of its nodes, and never looked for again.
-/

namespace ProjectGraph

/-- A node and the projects that it keeps. -/
structure KeepingNode where
  node : BuildNode
  projects : List ProjectId
  mem_projects : ∀ id, id ∈ projects ↔ id ∈ node.configurations.map (·.1)

/-- A task dependency and the projects that it keeps. -/
structure KeepingTasks where
  dependency : TaskDependency
  projects : List ProjectId
  mem_projects : ∀ id, id ∈ projects ↔ id ∈ dependency.configurations.map (·.1)

namespace KeepingTasks

def ofEdge (e : Edge) : KeepingTasks := ⟨.ofEdge e, [], by simp [TaskDependency.configurations]⟩

/-- Lists nodes; with a failure the list cannot be completed. -/
def listing (nodes : List KeepingNode) (failure : Option String) : KeepingTasks where
  dependency := .listing (nodes.map (·.node)) failure
  projects := firstOccurrences (nodes.flatMap (·.projects))
  mem_projects := fun id => by
    rw [mem_firstOccurrences, TaskDependency.configurations]
    induction nodes with
    | nil => simp [BuildNode.allConfigurations]
    | cons n ns ih =>
      rw [List.flatMap_cons, List.mem_append, ih, n.mem_projects id]
      simp [BuildNode.allConfigurations]

/-- The task dependency as a node. -/
def node (d : KeepingTasks) : KeepingNode :=
  ⟨.dependency d.dependency, d.projects, by simpa [BuildNode.configurations] using d.mem_projects⟩

end KeepingTasks

namespace KeepingNode

def task (path : TaskPath) : KeepingNode := ⟨.task path, [], by simp [BuildNode.configurations]⟩

def artifact (a : Artifact) : KeepingNode := ⟨.artifact a, [], by simp [BuildNode.configurations]⟩

def configuration (project : ProjectId) (c : Configuration) : KeepingNode :=
  ⟨.configuration project c, [project], by simp [BuildNode.configurations]⟩

end KeepingNode

end ProjectGraph
