import ProjectGraph.BuildTree
import ProjectGraph.CommandLine.Arguments
import ProjectGraph.CommandLine.Transcript
import ProjectGraph.DirectUse

/-!
The commands. `check` selects the target of every declared edge and counts the failures; the others start
from all that one configuration declares or inherits, and end at the first failure.
-/

namespace ProjectGraph

/-- An edge with the place where it is declared. -/
structure DeclaredEdge where
  project : Project
  configuration : String
  edge : Edge

/-- The lines of a closure. -/
def Closure.report (c : Closure) : List String :=
  "Dependencies" :: c.dependencies.map (fun d => "  " ++ d.render) ++
    (if c.constraints.isEmpty then []
     else "Constraints" :: c.constraints.map fun k =>
       "  " ++ k.render ++ (k.reason.map fun r => " (" ++ r ++ ")").getD "")

namespace Build

/-- All edges, by project, by configuration and in the order of their declaration. -/
def declaredEdges (b : Build) : List DeclaredEdge :=
  b.projects.flatMap fun p => p.container.entries.toList.flatMap fun (name, c) =>
    (c.dependencies.filterMap Dependency.edge?).map fun e => ⟨p, name, e⟩

/-- The line on an edge whose selection has this result. -/
def checkLine (d : DeclaredEdge) : Except BuildError Configuration → String
  | .ok c =>
    "✓ " ++ d.project.displayName ++ " (" ++ d.configuration ++ ") -> " ++ d.edge.render ++
      " [" ++ c.name ++ "]"
  | .error x =>
    "✗ " ++ d.project.displayName ++ " (" ++ d.configuration ++ ") -> " ++ d.edge.render ++
      ": " ++ x.message

/-- Selects the target of every edge. -/
def check (b : Build) : Transcript Unit :=
  let selections := b.declaredEdges.map fun d => (d, b.store.select d.edge)
  let checked := selections.length
  let failed := selections.countP fun s => !s.2.result.isOk
  let lines := selections.map fun s => checkLine s.1 s.2.result
  let notices := selections.flatMap (·.2.notices)
  if failed > 0 then
    ⟨lines, notices, .error (.other
      (toString failed ++ " of " ++ toString checked ++ " project dependencies could not be resolved"))⟩
  else ⟨lines ++ [toString checked ++ " project dependencies OK"], notices, .ok ()⟩

/-- The configuration that a user names, with its project. -/
def locate (b : Build) (project configuration : String) : Except BuildError (Project × Configuration) := do
  let path ← match ProjectPath.parse project with
    | .ok path => .ok path
    | .error pathFault => .error (.ofPathFault pathFault)
  let id ← b.find path
  match b.store.project? id with
  | none => .error (.unknownProject path.render)
  | some p =>
    let c ← p.container.find configuration
    return (p, c)

/-- What the named configuration declares or inherits. -/
def dependenciesOf (b : Build) (project configuration : String) : Except BuildError (List Dependency) := do
  let (p, c) ← b.locate project configuration
  p.container.allDependencies c

def edgesFrom (b : Build) (project configuration : String) : Except BuildError (List Edge) := do
  let ds ← b.dependenciesOf project configuration
  return ds.filterMap Dependency.edge?

def printAll (lines : List String) : Transcript Unit := ⟨lines, [], .ok ()⟩

/-- Prints the closure of a configuration. -/
def closure (b : Build) (project configuration : String) (transitive : Bool) : Transcript Unit := do
  let ds ← b.dependenciesOf project configuration
  let closure ← b.store.closure ((Intake.empty transitive).addDependencies ds)
  printAll closure.report

/-- Prints the tasks of each edge in turn; gives all tasks that were printed. -/
def printTasks (b : Build) : List Edge → Transcript (List TaskPath)
  | [] => pure []
  | e :: es => do
    let ts ← b.store.dependencyTasks (.ofEdge e)
    .print e.render
    printAll (if ts.isEmpty then ["  (no tasks)"] else ts.map fun t => "  " ++ t.render)
    let more ← b.printTasks es
    return ts ++ more

/-- Prints the tasks that the edges of a configuration need, and their number. -/
def tasks (b : Build) (project configuration : String) : Transcript Unit := do
  let es ← b.edgesFrom project configuration
  let ts ← b.printTasks es
  .print ("==> " ++ toString (Std.TreeSet.ofList ts).size ++ " task(s) must run first")

/-- Prints the files of each edge in turn. -/
def printFiles (b : Build) (transitive : Bool) : List Edge → Transcript Unit
  | [] => pure ()
  | e :: es => do
    let files ← b.store.resolveFiles e transitive
    printAll (files.map (·.text))
    b.printFiles transitive es

/-- Prints the files of the edges of a configuration. -/
def files (b : Build) (project configuration : String) (transitive : Bool) : Transcript Unit := do
  let es ← b.edgesFrom project configuration
  b.printFiles transitive es

/-- Carries out a command. -/
def carryOut (b : Build) : Command → Transcript Unit
  | .check => b.check
  | .closure project configuration intransitive => b.closure project configuration !intransitive
  | .tasks project configuration => b.tasks project configuration
  | .files project configuration intransitive => b.files project configuration !intransitive

end Build

end ProjectGraph
