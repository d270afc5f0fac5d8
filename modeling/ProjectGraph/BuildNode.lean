import ProjectGraph.Configuration

/-!
Build nodes: what may bring tasks that must run first. A task brings itself, an artifact the tasks that
build it, a configuration what its edges bring, and a task dependency what it lists when it is asked.
-/

namespace ProjectGraph

mutual

inductive BuildNode where
  | task (path : TaskPath)
  | artifact (artifact : Artifact)
  /-- A configuration with the project in which its parents are looked up. -/
  | configuration (project : ProjectId) (configuration : Configuration)
  | dependency (dependency : TaskDependency)

/-- Nodes that are worked out each time they are asked for. -/
inductive TaskDependency where
  /-- What an edge needs before its files can be used. -/
  | ofEdge (edge : Edge)
  /-- The nodes of a list; with a failure the list cannot be completed. -/
  | listing (nodes : List BuildNode) (failure : Option String)

end

instance : Inhabited TaskDependency := ⟨.listing [] none⟩

mutual

/-- The configurations that a node names without asking any edge. -/
def BuildNode.configurations : BuildNode → List (ProjectId × Configuration)
  | .task _ => []
  | .artifact _ => []
  | .configuration p c => [(p, c)]
  | .dependency d => d.configurations

def TaskDependency.configurations : TaskDependency → List (ProjectId × Configuration)
  | .ofEdge _ => []
  | .listing nodes _ => BuildNode.allConfigurations nodes

def BuildNode.allConfigurations : List BuildNode → List (ProjectId × Configuration)
  | [] => []
  | n :: ns => n.configurations ++ BuildNode.allConfigurations ns

end

theorem BuildNode.mem_allConfigurations {nodes : List BuildNode} {c : ProjectId × Configuration} :
    c ∈ BuildNode.allConfigurations nodes ↔ ∃ n ∈ nodes, c ∈ n.configurations := by
  induction nodes with
  | nil => simp [BuildNode.allConfigurations]
  | cons n ns ih => simp [BuildNode.allConfigurations, ih]

/-- How a node is shown. -/
def BuildNode.render : BuildNode → String
  | .task path => "Task(" ++ path.render ++ ")"
  | .artifact a => "Artifact(" ++ a.render ++ ")"
  | .configuration _ c => "Configuration(" ++ c.owner.render ++ ":" ++ c.name ++ ")"
  | .dependency _ => "Dependency(..)"

end ProjectGraph
