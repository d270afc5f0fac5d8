import ProjectGraph.BuildFile.Load
import ProjectGraph.Proofs.Build.Edges
import ProjectGraph.Proofs.Loops

/-!
What the entries of a build file say of dependencies and configurations. `Describes` holds between an entry and what a
build makes of it, part by part. Making it is a matter of the tree alone, and it fails where nothing would be described.
-/

namespace ProjectGraph

/-- The dependency is what its entry says: an edge to the project of the path, or the module that was read. -/
def DependencySpec.Describes (b : Build) : DependencySpec → Dependency → Prop
  | .project path buildsProducer request, d =>
    ∃ e : Edge, d = .project e ∧ e.Into b ∧ e.path = path ∧ e.buildsProducer = buildsProducer ∧ e.request = request
  | .module coordinates request, d =>
    ∃ m, ModuleDependency.parse? coordinates = some m ∧ d = .module { m with request }

/-- The configuration is what its entry says, with one dependency for each that is written, in order. -/
structure ConfigurationSpec.Describes (b : Build) (spec : ConfigurationSpec) (c : Declaration) : Prop where
  name_eq : c.name = spec.name
  roles_eq : c.roles = ⟨spec.consumable, spec.resolvable, true⟩
  deprecation_eq : c.consumptionDeprecation = spec.deprecatedForConsumption
  extendsFrom_eq : c.extendsFrom = spec.extendsFrom
  dependencies : List.Forall₂ (DependencySpec.Describes b) spec.dependencies c.dependencies
  constraints_eq : c.constraints = spec.constraints
  artifacts_eq : c.artifacts = spec.artifacts

theorem DependencySpec.resolve_eq_ok {b : Build} {spec : DependencySpec} {d : Dependency} :
    spec.resolve b = .ok d ↔ spec.Describes b d := by
  cases spec with
  | project path buildsProducer request =>
      simp only [resolve, Edge.asking_targeting, Describes, except_bind_eq_ok, Build.find]
      constructor
      · rintro ⟨producer, hproducer, h⟩
        cases h
        split at hproducer
        · rename_i id hid
          cases hproducer
          exact ⟨_, rfl, hid, rfl, rfl, rfl⟩
        · cases hproducer
      · rintro ⟨⟨producer, _, _, _⟩, rfl, hinto, rfl, rfl, rfl⟩
        refine ⟨producer, ?_, rfl⟩
        unfold Edge.Into at hinto
        simp only [hinto]
  | module coordinates request =>
      simp only [resolve, Describes]
      cases ModuleDependency.parse? coordinates with
      | none => simp
      | some m => simp [eq_comm]

theorem ConfigurationSpec.declaration_eq_ok {b : Build} {spec : ConfigurationSpec} {d : Declaration} :
    spec.declaration b = .ok d ↔ spec.Describes b d := by
  simp only [declaration, except_bind_eq_ok, mapM_eq_ok_iff, DependencySpec.resolve_eq_ok]
  constructor
  · rintro ⟨dependencies, hdependencies, h⟩
    cases h
    exact ⟨rfl, rfl, rfl, rfl, hdependencies, rfl, rfl⟩
  · obtain ⟨name, roles, deprecation, extendsFrom, dependencies, constraints, artifacts⟩ := d
    rintro ⟨rfl, rfl, rfl, rfl, hdependencies, rfl, rfl⟩
    exact ⟨dependencies, hdependencies, rfl⟩

/-- Builds with the same tree make the same sense of an entry. -/
theorem DependencySpec.Describes.of_tree_eq {b b' : Build} (h : b'.tree = b.tree) {spec : DependencySpec}
    {d : Dependency} (hd : spec.Describes b d) : spec.Describes b' d := by
  cases spec with
  | project path buildsProducer request =>
      obtain ⟨e, rfl, hinto, he⟩ := hd
      exact ⟨e, rfl, by rwa [Edge.Into, h], he⟩
  | module coordinates request => exact hd

theorem ConfigurationSpec.Describes.of_tree_eq {b b' : Build} (h : b'.tree = b.tree) {spec : ConfigurationSpec}
    {d : Declaration} (hd : spec.Describes b d) : spec.Describes b' d :=
  { hd with dependencies := hd.dependencies.imp fun _ _ => DependencySpec.Describes.of_tree_eq h }

/-- The edges of a described configuration lead into the build. -/
theorem ConfigurationSpec.Describes.into {b : Build} {spec : ConfigurationSpec} {d : Declaration}
    (h : spec.Describes b d) : ∀ x, .project x ∈ d.dependencies → x.Into b := by
  intro x hx
  obtain ⟨entry, _, hentry⟩ := exists_of_forall₂ h.dependencies _ hx
  cases entry with
  | project path buildsProducer request =>
      obtain ⟨e, heq, hinto, _⟩ := hentry
      cases heq
      exact hinto
  | module coordinates request =>
      obtain ⟨m, _, heq⟩ := hentry
      cases heq

end ProjectGraph
