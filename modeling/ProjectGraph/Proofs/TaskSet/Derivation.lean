import ProjectGraph.Proofs.TaskSet.Flags
import ProjectGraph.Proofs.TaskSet.Reachability

/-!
The tasks of an edge are derived by reachability and nothing else. In a self-contained build the query fails
exactly if an edge of the reach does, and gives the tasks of what the edges of the reach publish. Transitive
flags and exclude rules make no difference, not even to the notices, and an edge that does not build its
producer looks nothing up.
-/

namespace ProjectGraph

namespace Store

theorem dependencyTasks_plain (s : Store) (e : Edge) :
    s.plain.dependencyTasks (.ofEdge e.plain) = s.dependencyTasks (.ofEdge e) :=
  s.tasks_plain [.dependency (.ofEdge e)]

theorem dependencyTasks_of_not_builds (s : Store) {e : Edge} (h : e.buildsProducer = false) :
    s.dependencyTasks (.ofEdge e) = ⟨[], .ok []⟩ := by
  obtain ⟨outcome, hdrains, htasks⟩ := s.tasks_drains [.dependency (.ofEdge e)]
  have hbring : s.bring (.dependency (.ofEdge e)) = ⟨[], .ok []⟩ := by
    rw [bring_edge, edgeNodes, h]
    rfl
  have hexpected : Drains s.taskStep [.dependency (.ofEdge e)] .empty ⟨[], .ok .empty⟩ :=
    .quietly (taskStep_new rfl hbring) (.done _)
  rw [dependencyTasks, htasks, hdrains.unique hexpected]
  rfl

end Store

namespace Build

variable {b : Build} {e : Edge}

/-- What the tasks of an edge are, when there are none to be had, and what has no influence on them. -/
theorem task_derivation (hb : b.Reachable) (hself : b.SelfContained) (he : e.Into b) :
    ((∃ failure, (b.store.dependencyTasks (.ofEdge e)).result = .error failure) ↔
      ∃ x, b.store.Reach [e] x ∧ b.store.Fails x) ∧
    (∀ ts, (b.store.dependencyTasks (.ofEdge e)).result = .ok ts →
      ts.Pairwise (fun t t' => compare t t' = .lt) ∧
        ∀ t, t ∈ ts ↔ ∃ a, b.store.Published [e] a ∧ t ∈ a.builtBy) ∧
    (∀ (s : Store) (e' : Edge), s.plain = b.store.plain → e'.plain = e.plain →
      s.dependencyTasks (.ofEdge e') = b.store.dependencyTasks (.ofEdge e)) ∧
    (e.buildsProducer = false → ∀ s : Store, s.dependencyTasks (.ofEdge e) = ⟨[], .ok []⟩) := by
  have hunambiguous := hb.unambiguous hself he
  refine ⟨Store.tasks_edges_eq_error_iff hunambiguous, fun ts hts => Store.tasks_edges_eq_ok hunambiguous hts,
    ?_, fun h s => s.dependencyTasks_of_not_builds h⟩
  intro s e' hs he'
  rw [← s.dependencyTasks_plain, hs, he', b.store.dependencyTasks_plain]

theorem task_derivation_shop :
    ∃ ts, (shop.store.dependencyTasks (.ofEdge (offerOf 2 "app"))).result = .ok ts ∧
      ts = [⟨⟨["app"]⟩, "jar"⟩, ⟨⟨["lib"]⟩, "jar"⟩] ∧
      ∀ t, t ∈ ts ↔ ∃ a, shop.store.Published [offerOf 2 "app"] a ∧ t ∈ a.builtBy := by
  have hwalk : (shop.store.dependencyTasks (.ofEdge (offerOf 2 "app"))).result.toOption.map id =
      some [⟨⟨["app"]⟩, "jar"⟩, ⟨⟨["lib"]⟩, "jar"⟩] := by
    decide +kernel
  obtain ⟨ts, hok, hts⟩ := exists_eq_ok hwalk
  have hinto : (offerOf 2 "app").Into shop := by decide +kernel
  obtain ⟨_, hderived, _⟩ := task_derivation shop_reachable shop_selfContained hinto
  exact ⟨ts, hok, hts, (hderived ts hok).2⟩

end Build

end ProjectGraph
