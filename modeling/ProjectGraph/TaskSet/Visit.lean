import ProjectGraph.BuildNode
import ProjectGraph.Container.Hierarchy
import ProjectGraph.Selection

/-!
What nodes bring. An edge that builds its producer brings the configuration it targets and the artifacts
published there; an edge that does not brings nothing and looks nothing up. A configuration brings its
edges, declared and inherited ones.
-/

namespace ProjectGraph

namespace Store

/-- The configuration that an edge targets and the artifacts it publishes, as nodes. -/
def edgeNodes (s : Store) (e : Edge) : Reporting (List BuildNode) :=
  if e.buildsProducer then do
    let producer ← .ofExcept (s.producer e)
    let c ← s.select e
    let artifacts ← .ofExcept (producer.container.allArtifacts c)
    return .configuration e.producer c :: artifacts.map .artifact
  else pure []

/-- Lists all nodes of a look-up, or none if it fails. -/
def listAll : Reporting (List BuildNode) → List BuildNode × Reporting Unit
  | ⟨notices, .ok nodes⟩ => (nodes, ⟨notices, .ok ()⟩)
  | ⟨notices, .error x⟩ => ([], ⟨notices, .error x⟩)

/-- Lists the nodes of a task dependency. A listing that fails keeps what it listed before. -/
def visit (s : Store) : TaskDependency → List BuildNode × Reporting Unit
  | .ofEdge e => listAll (s.edgeNodes e)
  | .listing nodes failure =>
    match failure with
    | none => (nodes, .ofExcept (.ok ()))
    | some x => (nodes, .fail (.other x))

/-- The edges that a configuration declares or inherits. -/
def edgesOf (s : Store) (project : ProjectId) (c : Configuration) : Except BuildError (List Edge) :=
  match s.project? project with
  | none => .error (.unknownProject c.owner.render)
  | some p => do
    let ds ← p.container.allDependencies c
    return ds.filterMap Dependency.edge?

/-- An edge brings a registered configuration and artifacts, or nothing. -/
theorem edgeNodes_eq_ok {s : Store} {e : Edge} {nodes : List BuildNode}
    (h : (s.edgeNodes e).result = .ok nodes) :
    nodes = [] ∨ ∃ (c : Configuration) (artifacts : List Artifact),
      nodes = .configuration e.producer c :: artifacts.map .artifact ∧
      (e.producer, c) ∈ s.configurations := by
  unfold edgeNodes at h
  split at h
  · obtain ⟨p, hp, h⟩ := Reporting.bind_eq_ok.1 h
    obtain ⟨c, hc, h⟩ := Reporting.bind_eq_ok.1 h
    obtain ⟨artifacts, _, h⟩ := Reporting.bind_eq_ok.1 h
    cases h
    obtain ⟨q, hq, hmem⟩ := select_eq_ok hc
    exact Or.inr ⟨c, artifacts, rfl, mem_configurations hq hmem⟩
  · cases h
    exact Or.inl rfl

/-- What a task dependency lists names configurations of its own or registered ones. -/
theorem visit_configurations {s : Store} {d : TaskDependency} {nodes : List BuildNode}
    {notices : List Raised} (h : s.visit d = (nodes, ⟨notices, .ok ()⟩)) {n : BuildNode} (hn : n ∈ nodes)
    {c : ProjectId × Configuration} (hc : c ∈ n.configurations) :
    c ∈ d.configurations ∨ c ∈ s.configurations := by
  cases d with
  | ofEdge e =>
    simp only [visit, listAll] at h
    split at h
    · rename_i ns found hr
      cases h
      have hr' : (s.edgeNodes e).result = .ok nodes := by rw [hr]
      rcases edgeNodes_eq_ok hr' with rfl | ⟨k, artifacts, rfl, hk⟩
      · cases hn
      · rcases List.mem_cons.1 hn with rfl | hn
        · simp only [BuildNode.configurations, List.mem_singleton] at hc
          exact Or.inr (hc ▸ hk)
        · obtain ⟨a, _, rfl⟩ := List.mem_map.1 hn
          simp [BuildNode.configurations] at hc
    · cases h
  | listing ns failure =>
    cases failure with
    | none =>
      cases h
      exact Or.inl (BuildNode.mem_allConfigurations.2 ⟨n, hn, hc⟩)
    | some x => cases h

end Store

end ProjectGraph
