import ProjectGraph.Proofs.Closure.Chains
import ProjectGraph.Proofs.Closure.Files

/-!
What a closure gathers besides dependencies. Its members decide on its files and constraints: each edge brings the
files of its target, and the constraints too if the edge and the walk are transitive. Exclude rules keep dependencies
from becoming members, and have no say beyond that.
-/

namespace ProjectGraph

namespace Store

variable {s : Store}

theorem flatMap_handedOn (s : Store) (transitive : Bool) (ds : List Dependency) :
    ds.flatMap (s.handedOn transitive) =
      if transitive then (ds.filter (·.request.transitive)).flatMap (s.atTarget Container.allConstraints) else [] := by
  cases transitive with
  | false => simp [handedOn]
  | true =>
      induction ds with
      | nil => rfl
      | cons d ds ih =>
          have hd : s.handedOn true d =
              if d.request.transitive then s.atTarget Container.allConstraints d else [] := by
            simp [handedOn]
          rw [List.flatMap_cons, ih, hd, List.filter_cons]
          cases d.request.transitive <;> rfl

/-- What is asked for at the target of a member edge is there. -/
theorem History.atTarget_eq {transitive : Bool} {seeds : List Dependency} {members : List Member}
    {waiting : List Pending} (h : History s transitive seeds members waiting) {e : Edge}
    (he : .project e ∈ members.map (·.dependency)) :
    ∃ p k, s.Selects e p k ∧
      p.container.allArtifacts k = .ok (s.atTarget Container.allArtifacts (.project e)) ∧
      p.container.allConstraints k = .ok (s.atTarget Container.allConstraints (.project e)) := by
  obtain ⟨p, k, above, hsel, habove⟩ := h.resolves_of_mem he
  have ha : p.container.allArtifacts k = .ok _ := Container.inherited_eq_ok.2 ⟨above, habove, rfl⟩
  have hc : p.container.allConstraints k = .ok _ := Container.inherited_eq_ok.2 ⟨above, habove, rfl⟩
  refine ⟨p, k, hsel, ?_, ?_⟩
  · rw [Store.atTarget_eq hsel ha, ha]
  · rw [Store.atTarget_eq hsel hc, hc]

/-- The files of a closure are the files at the targets of its edges, and its constraints the constraints at the targets
of its transitive edges, in the order of the members and each once. Every constraint there is gathered, whatever is
excluded. And as members stand at the ends of chains that no rule cuts, nothing is gathered from behind a rule. -/
theorem closure_gathers {i : Intake} (hi : i.constraints = []) {c : Closure}
    (h : (s.closure i).result = .ok c) :
    (∀ e, .project e ∈ c.dependencies → ∃ p k, s.Selects e p k ∧
      p.container.allArtifacts k = .ok (s.atTarget Container.allArtifacts (.project e)) ∧
      p.container.allConstraints k = .ok (s.atTarget Container.allConstraints (.project e))) ∧
    (∀ m, s.atTarget Container.allArtifacts (.module m) = [] ∧
      s.atTarget Container.allConstraints (.module m) = []) ∧
    c.files = firstOccurrences
      (c.dependencies.flatMap fun d => (s.atTarget Container.allArtifacts d).map (·.file)) ∧
    c.constraints = firstOccurrences (if i.transitive then
      (c.dependencies.filter (·.request.transitive)).flatMap (s.atTarget Container.allConstraints) else []) ∧
    (i.transitive = true → ∀ d ∈ c.dependencies, d.request.transitive = true →
      ∀ x ∈ s.atTarget Container.allConstraints d, c.constraints.contains x = true) ∧
    ∀ d ∈ c.dependencies, ∃ above, s.Chain i.dependencies (d :: above) ∧ ∀ x ∈ above, x ∈ c.dependencies := by
  obtain ⟨members, hhistory, hc⟩ := history_of_closure h
  have hconstraints := constraints_of_closure h
  rw [hi, List.nil_append, flatMap_handedOn] at hconstraints
  refine ⟨?_, fun m => ⟨rfl, rfl⟩, files_of_closure h, hconstraints, ?_, ?_⟩
  · intro e he
    rw [hc] at he
    exact hhistory.atTarget_eq he
  · intro htransitive d hd hopen x hx
    rw [hconstraints, if_pos htransitive, contains_firstOccurrences, List.contains_iff_mem]
    exact List.mem_flatMap.2 ⟨d, List.mem_filter.2 ⟨hd, hopen⟩, hx⟩
  · intro d hd
    rw [hc] at hd ⊢
    obtain ⟨m, hm, rfl⟩ := List.mem_map.1 hd
    obtain ⟨above, hchain, hmembers, _⟩ := hhistory.chain m hm
    exact ⟨above, hchain, hmembers⟩

end Store

namespace Build

/-- Without the module and the other project that the library needs. -/
def sparingEdge : Edge := ((offerOf 1 "lib").addExclude ⟨some "g", some "m"⟩).addExclude ⟨none, some "util"⟩

/-- The library needs a module, which it constrains, and another project. The application leaves out both, and takes
a tool without what this one needs. -/
def workshop : Build :=
  let b := ((start .empty "shop" ⟨0⟩).addProject ⟨["lib"]⟩).1
  let b := (b.addProject ⟨["app"]⟩).1
  let b := (b.addProject ⟨["tool"]⟩).1
  let b := (b.addProject ⟨["util"]⟩).1
  let b := b.declare ⟨1⟩
    { jarOf "lib" [.module moduleOfLib, .project (offerOf 4 "util")] with constraints := [⟨"g", "m", "2", none⟩] }
  let b := b.declare ⟨2⟩ (jarOf "app" [.project sparingEdge, .project ((offerOf 3 "tool").setTransitive false)])
  let b := b.declare ⟨3⟩ { jarOf "tool" [] with constraints := [⟨"g", "t", "1", none⟩] }
  b.declare ⟨4⟩ (jarOf "util" [])

/-- The constraint on the module stays, though the module is left out. The tool brings its file alone. -/
theorem closure_gathers_workshop :
    let i := (Intake.empty true).addDependencies [.project (offerOf 2 "app")]
    i.constraints = [] ∧
    ∃ c, (workshop.store.closure i).result = .ok c ∧
      c.dependencies =
        [.project (offerOf 2 "app"), .project sparingEdge, .project ((offerOf 3 "tool").setTransitive false)] ∧
      c.files.map (·.text) = ["app.jar", "lib.jar", "tool.jar"] ∧ c.constraints = [⟨"g", "m", "2", none⟩] ∧
      c.files = firstOccurrences
        (c.dependencies.flatMap fun d => (workshop.store.atTarget Container.allArtifacts d).map (·.file)) := by
  intro i
  have hwalk : (workshop.store.closure i).result.toOption.map
      (fun c => (c.dependencies, c.files.map (·.text), c.constraints)) =
        some ([.project (offerOf 2 "app"), .project sparingEdge, .project ((offerOf 3 "tool").setTransitive false)],
          ["app.jar", "lib.jar", "tool.jar"], [⟨"g", "m", "2", none⟩]) := by
    decide +kernel
  obtain ⟨c, hok, hc⟩ := exists_eq_ok hwalk
  obtain ⟨hdependencies, hfiles, hconstraints⟩ : c.dependencies = _ ∧ c.files.map (·.text) = _ ∧ c.constraints = _ := by
    simpa only [Prod.mk.injEq] using hc
  obtain ⟨_, _, hgathered, _⟩ := Store.closure_gathers (i := i) rfl hok
  exact ⟨rfl, c, hok, hdependencies, hfiles, hconstraints, hgathered⟩

end Build

end ProjectGraph
