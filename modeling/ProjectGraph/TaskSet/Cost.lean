import ProjectGraph.Potential
import ProjectGraph.TaskSet.Visit

/-!
The cost of nodes: the steps that a walk over them takes, working off configurations left out. What a task
dependency lists costs one step less than the dependency.
-/

namespace ProjectGraph

namespace Store

/-- The steps that a node takes without asking anything: an artifact hands on its tasks. -/
def plainCost : BuildNode → Nat
  | .artifact a => 1 + a.builtBy.length
  | _ => 1

/-- The steps that the nodes of an edge take. -/
def edgeCost (s : Store) (e : Edge) : Nat :=
  match (s.edgeNodes e).result with
  | .ok nodes => total plainCost nodes
  | .error _ => 0

mutual

/-- The steps that a node takes, working off configurations left out. -/
def nodeCost (s : Store) : BuildNode → Nat
  | .task _ => 1
  | .artifact a => 1 + a.builtBy.length
  | .configuration _ _ => 1
  | .dependency d => 1 + s.dependencyCost d

def dependencyCost (s : Store) : TaskDependency → Nat
  | .ofEdge e => s.edgeCost e
  | .listing nodes _ => s.nodeCosts nodes

def nodeCosts (s : Store) : List BuildNode → Nat
  | [] => 0
  | n :: ns => s.nodeCost n + s.nodeCosts ns

end

/-- What working off a configuration adds to what waits. -/
def configurationCost (s : Store) (c : ProjectId × Configuration) : Nat :=
  match s.edgesOf c.1 c.2 with
  | .ok es => total (fun e => 1 + s.edgeCost e) es
  | .error _ => 0

@[simp] theorem nodeCosts_append (s : Store) (xs ys : List BuildNode) :
    s.nodeCosts (xs ++ ys) = s.nodeCosts xs + s.nodeCosts ys := by
  induction xs with
  | nil => simp [nodeCosts]
  | cons x xs ih => simp [nodeCosts, ih, Nat.add_assoc]

theorem nodeCosts_tasks (s : Store) (ts : List TaskPath) :
    s.nodeCosts (ts.map BuildNode.task) = ts.length := by
  induction ts with
  | nil => simp [nodeCosts]
  | cons t ts ih => simp [nodeCosts, nodeCost, ih, Nat.add_comm]

theorem nodeCosts_edges (s : Store) (es : List Edge) :
    s.nodeCosts (es.map fun e => .dependency (.ofEdge e)) =
      total (fun e => 1 + s.edgeCost e) es := by
  induction es with
  | nil => rfl
  | cons e es ih => simp [nodeCosts, nodeCost, dependencyCost, total, ih]

theorem nodeCosts_artifacts (s : Store) (artifacts : List Artifact) :
    s.nodeCosts (artifacts.map BuildNode.artifact) = total plainCost (artifacts.map .artifact) := by
  induction artifacts with
  | nil => rfl
  | cons a artifacts ih => simp [nodeCosts, nodeCost, plainCost, total, ih]

/-- What a task dependency lists costs what the dependency was to cost. -/
theorem visit_cost {s : Store} {d : TaskDependency} {nodes : List BuildNode} {notices : List Raised}
    (h : s.visit d = (nodes, ⟨notices, .ok ()⟩)) : s.nodeCosts nodes = s.dependencyCost d := by
  cases d with
  | ofEdge e =>
    simp only [visit, listAll] at h
    split at h
    · rename_i ns found hr
      cases h
      have hr' : (s.edgeNodes e).result = .ok nodes := by rw [hr]
      simp only [dependencyCost, edgeCost, hr']
      rcases edgeNodes_eq_ok hr' with rfl | ⟨c, artifacts, rfl, _⟩
      · rfl
      · simp [nodeCosts, nodeCost, plainCost, total, nodeCosts_artifacts]
    · cases h
  | listing ns failure =>
    cases failure with
    | none => cases h; simp [dependencyCost]
    | some x => cases h

end Store

end ProjectGraph
