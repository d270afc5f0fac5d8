import ProjectGraph.BuildFile
import ProjectGraph.BuildTree

/-!
Building the tree that a build file describes. All projects are made before any configuration, so that a
dependency may point anywhere in the tree. Of two entries for one project the later one's group and version
count, and the configurations of both are registered.
-/

namespace ProjectGraph

namespace DependencySpec

/-- The dependency in a build that has the project it names. -/
def resolve (b : Build) : DependencySpec → Except BuildError Dependency
  | .project path buildsProducer request => do
    let producer ← b.find path
    let fresh := Edge.requesting producer path buildsProducer (.targeting request.targetConfiguration)
    return .project (fresh.asking request)
  | .module coordinates request =>
    match ModuleDependency.parse? coordinates with
    | some m => .ok (.module { m with request })
    | none => .error (.buildFile ("Invalid module notation '" ++ coordinates ++ "'"))

end DependencySpec

namespace ConfigurationSpec

def declaration (b : Build) (spec : ConfigurationSpec) : Except BuildError Declaration := do
  let dependencies ← spec.dependencies.mapM (DependencySpec.resolve b)
  return {
    name := spec.name
    roles := ⟨spec.consumable, spec.resolvable, true⟩
    consumptionDeprecation := spec.deprecatedForConsumption
    extendsFrom := spec.extendsFrom
    dependencies := dependencies
    constraints := spec.constraints
    artifacts := spec.artifacts }

end ConfigurationSpec

namespace Build

/-- Registers a configuration in the project at a path. -/
def register (b : Build) (path : ProjectPath) (d : Declaration) : Except BuildError Build := do
  let id ← b.find path
  match b.store.project? id with
  | none => .error (.unknownProject path.render)
  | some p =>
    let (container, result) := p.container.register d
    let _ ← result
    return { b with store := b.store.modify id fun p => { p with container } }

/-- Makes the project of an entry, unless it is the root, and sets what the entry says about it. -/
def outline (b : Build) (spec : ProjectSpec) : Except BuildError Build := do
  let (b, id) ← if spec.path.isRoot then .ok (b, b.tree.root) else b.enroll spec.path
  return { b with store := b.store.modify id fun p =>
      { p with group := spec.group.getD p.group, version := spec.version.getD p.version } }

/-- Registers one configuration of an entry. -/
def furnishWith (b : Build) (path : ProjectPath) (spec : ConfigurationSpec) : Except BuildError Build := do
  let d ← spec.declaration b
  b.register path d

/-- Registers the configurations of an entry. -/
def furnish (b : Build) (spec : ProjectSpec) : Except BuildError Build :=
  spec.configurations.foldlM (·.furnishWith spec.path ·) b

end Build

namespace BuildFile

/-- The build that a file describes. Its notices go to `reporter`. -/
def load (f : BuildFile) (store : Store) (reporter : ReporterId) : Except BuildError Build := do
  let outlined ← f.projects.foldlM Build.outline (.start store f.rootProject reporter)
  f.projects.foldlM Build.furnish outlined

end BuildFile

end ProjectGraph
