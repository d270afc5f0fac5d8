import ProjectGraph.Session

/-!
The operations of a session: making and dropping trees, changing projects and their configurations, keeping
edges, snapshots and task dependencies, and asking for targets, closures, files and tasks.
-/

namespace ProjectGraph

namespace Session

/-! ### Trees -/

/-- Takes a build as the tree of a name, in place of what had the name. -/
def adopt (tree : String) (b : Build) : SessionM Unit := do
  setBuild tree b
  modify fun s => { s with reporters := s.reporters.insert tree b.tree.reporter }

/-- A tree of its own reporter that has nothing but a root. -/
def newTree (tree rootName : String) (mode : WarningMode) : SessionM Project := do
  let (store, reporter) := (← get).store.addReporter mode
  let b := Build.start store rootName reporter
  adopt tree b
  projectOf b.tree.root

/-- The tree that a build file describes; the number of its projects. A file that fails changes nothing. -/
def load (tree text : String) (mode : WarningMode) : SessionM Nat := do
  let file ← BuildFile.parse text
  let (store, reporter) := (← get).store.addReporter mode
  let b ← file.load store reporter
  adopt tree b
  return b.projects.length

/-- Whether there was a tree to drop. -/
def dropTree (tree : String) : SessionM Bool := do
  let there := (← get).trees.contains tree
  modify fun s => { s with trees := s.trees.erase tree }
  return there

def projects (tree : String) : SessionM (List Project) := do
  return (← build tree).projects

/-! ### Notices -/

/-- The reporter of a tree, also of one that is gone. -/
def reporterOf (tree : String) : SessionM ReporterId := named "tree" reporters tree

def report (tree : String) (n : Notice) : SessionM Unit := do
  perform (.raise (← reporterOf tree) n)

def notices (tree : String) : SessionM (List Notice) := do
  let id ← reporterOf tree
  return ((← get).store.reporter id).notices

def finish (tree : String) : SessionM Nat := do
  let id ← reporterOf tree
  let (lines, result) := ((← get).store.reporter id).finish
  modify fun s => { s with log := s.log ++ lines }
  result

/-! ### Projects -/

def addProject (tree raw : String) : SessionM Project := do
  let path ← parsePath raw
  let (b, id) ← (← build tree).enroll path
  setBuild tree b
  projectOf id

/-- Sets what is given. -/
def setCoordinates (r : ProjectRef) (group name version : Option String) : SessionM Project := do
  let id ← projectId r
  modifyProject id fun p =>
    { p with group := group.getD p.group, name := name.getD p.name, version := version.getD p.version }
  projectOf id

def hold (r : ProjectRef) (name : String) : SessionM Project := do
  let id ← projectId r
  modify fun s => { s with held := s.held.insert name id }
  projectOf id

/-- Whether there was anything to let go of. -/
def release (name : String) : SessionM Bool := do
  let there := (← get).held.contains name
  modify fun s => { s with held := s.held.erase name }
  return there

/-! ### Configurations -/

def setContainer (id : ProjectId) (container : Container) : SessionM Unit :=
  modifyProject id fun p => { p with container }

def register (r : ProjectRef) (name : String) (changes : DeclarationChanges) : SessionM Configuration := do
  let id ← projectId r
  let change ← declare changes
  let (container, result) := (← projectOf id).container.register (change (.named name))
  setContainer id container
  result

/-- A change of a container while one of its configurations is being rebuilt. -/
inductive ContainerStep where
  | register (name : String)
  | rename (source target : String)
  | remove (name : String)
  | names

inductive StepAnswer where
  | name (name : String)
  | removed (there : Bool)
  | names (names : List String)
  | failed (e : BuildError)

def ContainerStep.run (k : Container) : ContainerStep → Container × StepAnswer
  | .register name =>
    match k.register (.named name) with
    | (k, .ok _) => (k, .name name)
    | (k, .error e) => (k, .failed e)
  | .rename source target =>
    match k.rename source target with
    | (k, .ok _) => (k, .name target)
    | (k, .error e) => (k, .failed e)
  | .remove name =>
    let (k, removed) := k.remove name
    (k, .removed removed.isSome)
  | .names => (k, .names k.names)

/-- Runs steps in order. -/
def ContainerStep.runAll (k : Container) : List ContainerStep → Container × List StepAnswer
  | [] => (k, [])
  | step :: steps =>
    let (k, answer) := step.run k
    let (k, answers) := runAll k steps
    (k, answer :: answers)

/-- Rebuilds a configuration; the steps run before its declaration is changed. -/
def configure (r : ProjectRef) (name : String) (changes : DeclarationChanges) (during : List ContainerStep) :
    SessionM (List StepAnswer × Except BuildError Configuration) := do
  let id ← projectId r
  let change ← declare changes
  let k := (← projectOf id).container
  let answers := if k.entries.contains name then (ContainerStep.runAll k during).2 else []
  let (k, result) := k.configure name fun d k => (change d, (ContainerStep.runAll k during).1)
  setContainer id k
  return (answers, result)

def rename (r : ProjectRef) (source target : String) : SessionM Configuration := do
  let id ← projectId r
  let (container, result) := (← projectOf id).container.rename source target
  setContainer id container
  result

def remove (r : ProjectRef) (name : String) : SessionM (Option Configuration) := do
  let id ← projectId r
  let (container, removed) := (← projectOf id).container.remove name
  setContainer id container
  return removed

def find (r : ProjectRef) (name : String) : SessionM (Option Configuration) := do
  return (← project r).container.find? name

def names (r : ProjectRef) : SessionM (List String) := do
  return (← project r).container.names

/-- Keeps a configuration as it is now; whether the one kept before was the same. -/
def snapshot (c : ConfigurationRef) (name : String) : SessionM (Option Bool) := do
  let c ← configuration c
  let before := (← get).snapshots.get? name
  modify fun s => { s with snapshots := s.snapshots.insert name c }
  return before.map (· == c)

def hierarchy (r : ProjectRef) (c : ConfigurationRef) : SessionM (List String) := do
  let p ← project r
  let c ← configuration c
  let members ← p.container.hierarchy c
  return members.map (·.name)

/-- All that a configuration declares or inherits. -/
def inventory (r : ProjectRef) (c : ConfigurationRef) :
    SessionM (List Dependency × List Constraint × List Artifact) := do
  let p ← project r
  let c ← configuration c
  let dependencies ← p.container.allDependencies c
  let constraints ← p.container.allConstraints c
  let artifacts ← p.container.allArtifacts c
  return (dependencies, constraints, artifacts)

/-! ### Edges -/

def keepEdge (name : String) (e : Edge) : SessionM Edge := do
  modify fun s => { s with edges := s.edges.insert name e }
  return e

def addEdge (spec : EdgeSpec) (name : String) : SessionM Edge := do keepEdge name (← newEdge spec)

def changeEdge (name : String) (changes : EdgeChanges) : SessionM Edge := do
  keepEdge name (changes.apply (← edge name))

def copyEdge (source target : String) : SessionM Edge := do keepEdge target (← edge source).copy

/-- The producer of an edge as it is now. -/
def producer (e : Edge) : SessionM (Except BuildError Project) := do
  return (← get).store.producer e

/-- How many different edges there are, after each one. -/
def distinctCounts (names : List String) : SessionM (List Nat) := do
  let es ← names.mapM edge
  return countsAfter [] es

/-! ### Resolution -/

def target (name : String) : SessionM Configuration := do
  let e ← edge name
  perform ((← get).store.select e)

def excluded (d : DependencyRef) (rules : List ExcludeRule) : SessionM Bool := do
  let d ← dependency d
  return (← get).store.excluded rules d

/-- What an expansion hands over, and how it ends. -/
def expand (name : String) (transitive : Bool) : SessionM (Intake × Except BuildError Unit) := do
  let e ← edge name
  let (intake, outcome) := (← get).store.expand e (.empty transitive)
  return (intake, ← settle outcome)

/-- The closure of seeds and constraints, and of what an edge hands over if one is named. -/
def closure (seeds : List DependencyRef) (constraints : List Constraint) (expanding : Option String)
    (transitive : Bool) : SessionM Closure := do
  let seeds ← seeds.mapM dependency
  let intake := ((Intake.empty transitive).addDependencies seeds).addConstraints constraints
  let intake ← match expanding with
    | none => pure intake
    | some name => do
      let e ← edge name
      let (intake, outcome) := (← get).store.expand e intake
      perform outcome
      pure intake
  perform ((← get).store.closure intake)

def resolveFiles (name : String) (transitive : Bool) : SessionM (List FilePath) := do
  let e ← edge name
  perform ((← get).store.resolveFiles e transitive)

def resolve (name : String) : SessionM (List FilePath) := do
  let e ← edge name
  perform ((← get).store.resolve e)

/-! ### Tasks -/

def keepTasks (name : String) (d : KeepingTasks) : SessionM Unit :=
  modify fun s => { s with taskDependencies := s.taskDependencies.insert name d }

/-- Keeps the task dependency of an edge; the direct way raises a notice. -/
def addEdgeTasks (edgeName name : String) (direct : Bool) : SessionM Unit := do
  let e ← edge edgeName
  if direct then
    let _ ← perform ((← get).store.buildDependencies e)
  keepTasks name (.ofEdge e)

/-- Keeps a task dependency that lists nodes. -/
def addListing (nodes : List NodeRef) (failure : Option String) (name : String) : SessionM Unit := do
  keepTasks name (.listing (← nodes.mapM node) failure)

def tasks (name : String) : SessionM (List TaskPath) := do
  let d ← taskDependency name
  perform ((← get).store.dependencyTasks d)

/-- The nodes that a task dependency lists, and how the listing ends. -/
def visit (name : String) : SessionM (List BuildNode × Except BuildError Unit) := do
  let d ← taskDependency name
  let (nodes, outcome) := (← get).store.visit d
  return (nodes, ← settle outcome)

/-- The tasks of nodes that are given one by one. -/
def nodeTasks (nodes : List NodeRef) : SessionM (List TaskPath) := do
  let nodes ← nodes.mapM node
  perform ((← get).store.tasks (nodes.map (·.node)))

end Session

end ProjectGraph
