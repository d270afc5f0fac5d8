import ProjectGraph.Proofs.Closure.Taken
import ProjectGraph.Proofs.Container.Climbs
import ProjectGraph.Proofs.Container.Hierarchy
import ProjectGraph.Proofs.TaskSet.Expansions

/-!
The walks over a build end, whatever cycles there are between projects and along parents, and whether or not anything
fails. The walk over a hierarchy, the walk behind a closure and the walk over build nodes are taken with what they do on
the way, and each is bounded by what the build holds: by the names of a container, by what lies below the members of the
closure, and by the registered configurations.
-/

namespace ProjectGraph

namespace Store

/-- The walks end on every build. From any configuration, registered or not, the walk over the hierarchy enters no name
twice, and at most one name more than there are in the container. The walk behind a closure takes up at most the seeds
and what the selected configurations of the members declare or inherit. The walk over the nodes of edges expands each
owner and name once, and what it takes up is bounded by the edges and the registered configurations. -/
theorem walks_end (s : Store) :
    (∀ (k : Container) (c : Configuration), ∃ lookups entries result,
      k.Climbs [c.name] (.start c) c.extendsFrom lookups entries result ∧ k.hierarchy c = result.map Entered.toList ∧
        ((c :: entries).map (·.name)).Nodup ∧ (c :: entries).length ≤ k.names.length + 1 ∧
        lookups ≤ total (·.extendsFrom.length) (c :: entries)) ∧
    (∀ i : Intake, ∃ taken last, s.ClosureTakes i taken last ∧ (∀ c, (s.closure i).result = .ok c → last = c) ∧
      taken.length ≤ i.dependencies.length + s.belowMembers last ∧
      ∀ e, .project e ∈ last.dependencies →
        ∃ p c, s.Selects e p c ∧ p.container.allDependencies c = .ok (s.below (.project e))) ∧
    ∀ es : List Edge, ∃ taken, s.TasksTake (edgeSeeds es) taken ∧
      ((expansions taken).map key).Nodup ∧ expansions taken ⊆ s.configurations ∧
      taken.length ≤ total (fun e => 1 + s.edgeCost e) es + total s.configurationCost s.configurations :=
  ⟨Container.hierarchy_climbs, s.closure_takes, s.tasks_takes⟩

end Store

namespace Build

/-- In a shop whose projects need each other, and in a container with a cycle. The closure of the application takes up
four dependencies at most: the application, what it needs, and the two that the library needs. -/
theorem walks_end_shop :
    let spoke := Container.tangled.own (Container.extending "spoke" ["core", "rim"])
    let i := (Intake.empty true).addDependencies [.project (offerOf 2 "app")]
    (∃ lookups entries x, Container.tangled.Climbs ["spoke"] (.start spoke) ["core", "rim"] lookups entries (.error x) ∧
      (spoke :: entries).length ≤ 8) ∧
    (∃ taken c, shop.store.ClosureTakes i taken c ∧ (shop.store.closure i).result = .ok c ∧ taken.length ≤ 4) ∧
    ∃ taken, shop.store.TasksTake (Store.edgeSeeds [offerOf 2 "app"]) taken ∧
      (shop.store.tasks (Store.edgeSeeds [offerOf 2 "app"])).result.isOk ∧
      ((Store.expansions taken).map Store.key).Nodup ∧ taken.length ≤ 12 := by
  intro spoke i
  obtain ⟨hclimbs, hclosures, htasks⟩ := Store.walks_end shop.store
  refine ⟨?_, ?_, ?_⟩
  · obtain ⟨lookups, entries, result, hclimb, hhierarchy, _, hlength, _⟩ := hclimbs Container.tangled spoke
    have hcycle : Container.tangled.hierarchy spoke = .error (.configurationCycle "root project 'shop'" "rim") :=
      Container.eq_error_of_failure? (by decide +kernel)
    have hnames : Container.tangled.names.length = 7 := by decide +kernel
    rw [hnames] at hlength
    cases result with
    | ok entered =>
        rw [hcycle] at hhierarchy
        cases hhierarchy
    | error x => exact ⟨lookups, entries, x, hclimb, hlength⟩
  · obtain ⟨taken, last, htakes, hlast, hlength, _⟩ := hclosures i
    have hwalk : (shop.store.closure i).result.toOption.map shop.store.belowMembers = some 3 := by decide +kernel
    obtain ⟨c, hc, hbelow⟩ := exists_eq_ok hwalk
    obtain rfl := hlast c hc
    rw [hbelow] at hlength
    exact ⟨taken, last, htakes, hc, hlength⟩
  · obtain ⟨taken, htakes, hkeys, _, hlength⟩ := htasks [offerOf 2 "app"]
    have hbound : total (fun e => 1 + shop.store.edgeCost e) [offerOf 2 "app"] +
        total shop.store.configurationCost shop.store.configurations = 12 := by
      decide +kernel
    rw [hbound] at hlength
    exact ⟨taken, htakes, by decide +kernel, hkeys, hlength⟩

end Build

end ProjectGraph
