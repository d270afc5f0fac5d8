import ProjectGraph.Proofs.Closure.Chains
import ProjectGraph.Proofs.Closure.Files
import ProjectGraph.Proofs.TaskSet.Reachability

/-!
Files and tasks of one edge. The walk that gathers the files of an edge goes by transitive flags and exclude
rules and keeps the first of all edges that are the same; the walk that gathers its tasks goes by build flags
and configurations. As long as all edges that the first one reaches build their producers, each of them is one
that the second one follows, so every file that is resolved has its tasks among those of the edge.
-/

namespace ProjectGraph

namespace Store

/-- Edges that a closure reaches are in the reach of its seed if they build their producers. -/
theorem reach_of_mem_closure {s : Store} {e : Edge} {transitive : Bool} {c : Closure}
    (h : (s.closure ((Intake.empty transitive).addDependencies [.project e])).result = .ok c)
    (hbuilds : ∀ x, .project x ∈ c.dependencies → x.buildsProducer = true) :
    ∀ x, .project x ∈ c.dependencies → s.Reach [e] x := by
  obtain ⟨members, hhistory, hc⟩ := history_of_closure h
  have hreach : ∀ m ∈ members, m.dependency ∈ c.dependencies →
      ∀ x, m.dependency = .project x → s.Reach [e] x := by
    refine hhistory.induction ?_ ?_
    · intro d hd hmem x hx
      cases (hx : d = .project x)
      cases List.mem_singleton.1 hd
      exact .start List.mem_cons_self (hbuilds e hmem)
    · -- A kid lies below its parent, whatever the flags and rules on the way.
      intro m hm ih d hd hmem x hx
      cases (hx : d = .project x)
      obtain ⟨_, hbelow, _⟩ := mem_kids.1 hd
      obtain ⟨above, rules⟩ := m
      cases above with
      | module n => cases hbelow
      | project y =>
          have hy : s.Reach [e] y := ih (hc ▸ List.mem_map_of_mem hm) y rfl
          exact .step hy hbelow (hbuilds x hmem)
  intro x hx
  obtain ⟨m, hm, hmx⟩ := List.mem_map.1 (hc ▸ hx)
  exact hreach m hm (hmx ▸ hx) x hmx

end Store

namespace Build

variable {b : Build} {e : Edge}

/-- Each resolved file is published by an edge of the closure, and whatever publishes it there has its tasks among
those of the seed. -/
theorem resolved_files_have_tasks (hb : b.Reachable) (hself : b.SelfContained) (he : e.Into b) (transitive : Bool)
    {c : Closure} {ts : List TaskPath}
    (hclosure : (b.store.closure ((Intake.empty transitive).addDependencies [.project e])).result = .ok c)
    (htasks : (b.store.dependencyTasks (.ofEdge e)).result = .ok ts)
    (hbuilds : ∀ x, .project x ∈ c.dependencies → x.buildsProducer = true) :
    ∀ f ∈ c.files,
      (∃ x p k artifacts, .project x ∈ c.dependencies ∧ b.store.Selects x p k ∧
        p.container.allArtifacts k = .ok artifacts ∧ ∃ a ∈ artifacts, a.file = f) ∧
      ∀ x p k artifacts, .project x ∈ c.dependencies → b.store.Selects x p k →
        p.container.allArtifacts k = .ok artifacts →
          ∀ a ∈ artifacts, (a.file == f) = true → ∀ t ∈ a.builtBy, t ∈ ts := by
  have hunambiguous := hb.unambiguous hself he
  obtain ⟨_, hmem⟩ := Store.tasks_edges_eq_ok hunambiguous htasks
  intro f hf
  constructor
  · rw [Store.files_of_closure hclosure] at hf
    obtain ⟨d, hd, hfile⟩ := List.mem_flatMap.1 (mem_of_mem_firstOccurrences hf)
    obtain ⟨x, p, k, artifacts, rfl, hsel, hartifacts, hpublished⟩ := Store.mem_filesOf.1 hfile
    exact ⟨x, p, k, artifacts, hd, hsel, hartifacts, hpublished⟩
  · intro x p k artifacts hx hsel hartifacts a ha _ t ht
    have hreach : b.store.Reach [e] x := Store.reach_of_mem_closure hclosure hbuilds x hx
    exact (hmem t).2 ⟨a, ⟨x, p, k, artifacts, hreach, hsel, hartifacts, ha⟩, ht⟩

theorem resolved_files_have_tasks_shop :
    ∃ c ts, (shop.store.closure ((Intake.empty true).addDependencies [.project (offerOf 2 "app")])).result = .ok c ∧
      (shop.store.dependencyTasks (.ofEdge (offerOf 2 "app"))).result = .ok ts ∧
      c.files.map (·.text) = ["app.jar", "lib.jar"] ∧
      ∀ f ∈ c.files, ∀ x p k artifacts, .project x ∈ c.dependencies → shop.store.Selects x p k →
        p.container.allArtifacts k = .ok artifacts →
          ∀ a ∈ artifacts, (a.file == f) = true → ∀ t ∈ a.builtBy, t ∈ ts := by
  have hclosure : (shop.store.closure ((Intake.empty true).addDependencies
      [.project (offerOf 2 "app")])).result.toOption.map (fun c => (c.files.map (·.text), c.dependencies)) =
        some (["app.jar", "lib.jar"],
          [.project (offerOf 2 "app"), .project (offerOf 1 "lib"), .module moduleOfLib]) := by
    decide +kernel
  have htasks : (shop.store.dependencyTasks (.ofEdge (offerOf 2 "app"))).result.toOption.map id =
      some [⟨⟨["app"]⟩, "jar"⟩, ⟨⟨["lib"]⟩, "jar"⟩] := by
    decide +kernel
  have hinto : (offerOf 2 "app").Into shop := by decide +kernel
  obtain ⟨c, hc, hparts⟩ := exists_eq_ok hclosure
  obtain ⟨hfiles, hdependencies⟩ := Prod.mk.inj hparts
  obtain ⟨ts, hts, _⟩ := exists_eq_ok htasks
  have hbuilds : ∀ x, .project x ∈ c.dependencies → x.buildsProducer = true := by
    rw [hdependencies]
    intro x hx
    simp only [List.mem_cons, Dependency.project.injEq, reduceCtorEq, List.not_mem_nil, or_false] at hx
    rcases hx with rfl | rfl
    · rfl
    · rfl
  have hresolved := resolved_files_have_tasks shop_reachable shop_selfContained hinto true hc hts hbuilds
  exact ⟨c, ts, hc, hts, hfiles, fun f hf => (hresolved f hf).2⟩

end Build

end ProjectGraph
