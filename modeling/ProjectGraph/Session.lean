import ProjectGraph.BuildFile.Load
import ProjectGraph.BuildNode.Keeping
import ProjectGraph.DirectUse

/-!
Sessions: builds, and what a user keeps of them under names. A build under a name keeps its projects, and
so do projects that are held and task dependencies that list a configuration. Edges and snapshots keep no
project. Whatever nothing keeps any more is dropped at the end of the operation that let go of it.
-/

namespace ProjectGraph

structure Session where
  store : Store
  trees : SortedMap String BuildTree
  /-- The reporter of the tree that was last made under the name, also when that is gone. -/
  reporters : SortedMap String ReporterId
  held : SortedMap String ProjectId
  snapshots : SortedMap String Configuration
  edges : SortedMap String Edge
  taskDependencies : SortedMap String KeepingTasks
  /-- The lines that were logged, the last one at the end. -/
  log : List String
  deriving Inhabited

/-- An operation on a session. What it has done before it fails stays done. -/
abbrev SessionM := ExceptT BuildError (StateM Session)

/-- A project, by its path in a tree or by the name under which it is held. -/
inductive ProjectRef where
  | path (tree raw : String)
  | held (name : String)

/-- A configuration, by its name in a project or by the name of a snapshot. -/
inductive ConfigurationRef where
  | named (project : ProjectRef) (name : String)
  | snapshot (name : String)

/-- Changes of an edge, applied in the order of the fields. -/
structure EdgeChanges where
  transitive : Option Bool
  attributes : List (String × String)
  capabilities : List Capability
  excludes : List ExcludeRule
  deriving Inhabited

/-- A new edge. -/
structure EdgeSpec where
  project : ProjectRef
  configuration : Option String
  buildsProducer : Bool
  changes : EdgeChanges

/-- A dependency to declare, or to start a walk from. -/
inductive DependencyRef where
  | edge (name : String)
  | module (dependency : ModuleDependency)
  | new (spec : EdgeSpec)

/-- What is added to a declaration; roles and deprecation replace what it had. -/
structure DeclarationChanges where
  roles : Option Roles
  consumptionDeprecation : Option (List String)
  extendsFrom : List String
  dependencies : List DependencyRef
  constraints : List Constraint
  artifacts : List Artifact
  deriving Inhabited

/-- A build node. -/
inductive NodeRef where
  | task (raw : String)
  | artifact (artifact : Artifact)
  | taskDependency (name : String)
  | configuration (project : ProjectRef) (configuration : ConfigurationRef)

namespace Session

def empty : Session := ⟨.empty, .empty, .empty, .empty, .empty, .empty, .empty, []⟩

/-- The projects that something keeps. -/
def kept (s : Session) : List ProjectId :=
  s.trees.values.flatMap (·.projects.values) ++ s.held.values ++ s.taskDependencies.values.flatMap (·.projects)

/-- Drops the projects that nothing keeps. -/
def dropUnkept (s : Session) : Session := { s with store := s.store.retain s.kept }

/-- The number of notices of the tree that was last made under a name. -/
def noticeCount (s : Session) (tree : String) : Option Nat :=
  (s.reporters.get? tree).map fun id => (s.store.reporter id).count

/-- Runs an operation. Gives the session after it, its result and the lines that it logged. -/
def run {α : Type} (s : Session) (operation : SessionM α) : Session × Except BuildError α × List String :=
  let (result, after) := operation { s with log := [] }
  ({ after with log := [] }.dropUnkept, result, after.log)

/-- Nothing is kept under the name. -/
def unknownName (kind name : String) : BuildError := .other ("no " ++ kind ++ " '" ++ name ++ "'")

/-- What is kept under a name. -/
def named {ν : Type} (kind : String) (kept : Session → SortedMap String ν) (name : String) : SessionM ν := do
  match (kept (← get)).get? name with
  | some value => return value
  | none => throw (unknownName kind name)

/-- The second half of a sequence starts from what the first one leaves, unless that fails. -/
theorem bind_apply {α β : Type} (first : SessionM α) (next : α → SessionM β) (s : Session) :
    (first >>= next) s = match first s with
      | (.ok a, after) => next a after
      | (.error x, after) => (.error x, after) := by
  have hbind : (first >>= next) s = ExceptT.bindCont next (first s).1 (first s).2 := rfl
  rw [hbind]
  obtain ⟨_ | a, after⟩ := first s <;> rfl

/-- Looking up a name changes nothing. -/
theorem named_apply {ν : Type} (kind : String) (kept : Session → SortedMap String ν) (name : String) (s : Session) :
    named kind kept name s = match (kept s).get? name with
      | some value => (.ok value, s)
      | none => (.error (unknownName kind name), s) := by
  have hget : (get : SessionM Session) s = (.ok s, s) := rfl
  rw [named, bind_apply, hget]
  dsimp only
  cases (kept s).get? name <;> rfl

/-! ### References -/

def build (tree : String) : SessionM Build := do
  return ⟨(← get).store, ← named "tree" trees tree⟩

/-- Keeps a build that has changed. -/
def setBuild (tree : String) (b : Build) : SessionM Unit :=
  modify fun s => { s with store := b.store, trees := s.trees.insert tree b.tree }

def parsePath (raw : String) : SessionM ProjectPath :=
  match ProjectPath.parse raw with
  | .ok p => return p
  | .error pathFault => throw (.ofPathFault pathFault)

def projectId : ProjectRef → SessionM ProjectId
  | .path tree raw => do
    let path ← parsePath raw
    (← build tree).find path
  | .held name => named "project" held name

/-- The project behind a number that something keeps. -/
def projectOf (id : ProjectId) : SessionM Project := do
  match (← get).store.project? id with
  | some p => return p
  | none => throw (.other "dropped project")

def project (r : ProjectRef) : SessionM Project := do projectOf (← projectId r)

def modifyProject (id : ProjectId) (f : Project → Project) : SessionM Unit :=
  modify fun s => { s with store := s.store.modify id f }

def configuration : ConfigurationRef → SessionM Configuration
  | .named r name => do
    let p ← project r
    p.container.find name
  | .snapshot name => named "snapshot" snapshots name

def edge (name : String) : SessionM Edge := named "edge" edges name

def keptTasks (name : String) : SessionM KeepingTasks := named "task dependency" taskDependencies name

def taskDependency (name : String) : SessionM TaskDependency := do return (← keptTasks name).dependency

end Session

/-- Applies the changes in order. -/
def EdgeChanges.apply (c : EdgeChanges) (e : Edge) : Edge :=
  let e := (c.transitive.map e.setTransitive).getD e
  let e := c.attributes.foldl (fun e a => e.addAttribute a.1 a.2) e
  let e := c.capabilities.foldl Edge.addCapability e
  c.excludes.foldl Edge.addExclude e

namespace Session

def newEdge (spec : EdgeSpec) : SessionM Edge := do
  let id ← projectId spec.project
  let p ← projectOf id
  return spec.changes.apply (.requesting id p.path spec.buildsProducer (.targeting spec.configuration))

def dependency : DependencyRef → SessionM Dependency
  | .edge name => return .project (← edge name)
  | .module m => return .module m
  | .new spec => return .project (← newEdge spec)

/-- What the changes make of a declaration. -/
def declare (c : DeclarationChanges) : SessionM (Declaration → Declaration) := do
  let dependencies ← c.dependencies.mapM dependency
  return fun d =>
    { d with
      roles := c.roles.getD d.roles
      consumptionDeprecation := c.consumptionDeprecation <|> d.consumptionDeprecation
      extendsFrom := d.extendsFrom ++ c.extendsFrom
      dependencies := d.dependencies ++ dependencies
      constraints := d.constraints ++ c.constraints
      artifacts := d.artifacts ++ c.artifacts }

def node : NodeRef → SessionM KeepingNode
  | .task raw =>
    match TaskPath.parse raw with
    | .ok t => return .task t
    | .error pathFault => throw (.ofPathFault pathFault)
  | .artifact a => return .artifact a
  | .taskDependency name => return (← keptTasks name).node
  | .configuration r c => do
    let id ← projectId r
    return .configuration id (← configuration c)

/-- Hands the notices of an outcome to their reporters, and gives its result. -/
def settle {α : Type} (r : Reporting α) : SessionM (Except BuildError α) := do
  modify fun s =>
    let (store, lines) := s.store.deliverAll r.notices
    { s with store := store, log := s.log ++ lines }
  return r.result

/-- Hands over the notices of an outcome and goes on with its value. -/
def perform {α : Type} (r : Reporting α) : SessionM α := do
  let result ← settle r
  result

end Session

end ProjectGraph
