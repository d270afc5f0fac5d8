import ProjectGraph.Store
import Std.Data.ExtTreeMap

/-!
Builds: a tree of projects in a store. The root project is there from the start, and a project is never in
the tree without the projects above it. Adding a project that is there already changes nothing.
-/

namespace ProjectGraph

structure BuildTree where
  root : ProjectId
  /-- All projects of the tree, in the order of their paths. -/
  projects : Std.ExtTreeMap ProjectPath ProjectId
  reporter : ReporterId
  deriving Inhabited

/-- A tree together with the store that holds its projects. -/
structure Build where
  store : Store
  tree : BuildTree
  deriving Inhabited

namespace ProjectPath

/--
The paths on the way down from the one with the segments `above`, the last one in front, each with its last
segment.
-/
def descentFrom (above : List String) : List String → List (ProjectPath × String)
  | [] => []
  | s :: below => (⟨(s :: above).reverse⟩, s) :: descentFrom (s :: above) below

/-- The projects on the way from the root down to a path, each with its name, the root left out. -/
def descent (p : ProjectPath) : List (ProjectPath × String) := descentFrom [] p.segments

end ProjectPath

namespace Build

/-- A build with nothing but its root project, whose notices go to `reporter`. -/
def start (store : Store) (rootName : String) (reporter : ReporterId) : Build :=
  let (store, root) := store.add (.new .root rootName reporter)
  ⟨store, ⟨root, Std.ExtTreeMap.empty.insert .root root, reporter⟩⟩

/-- A build with one more project. -/
def add (b : Build) (path : ProjectPath) (name : String) : Build × ProjectId :=
  let (store, id) := b.store.add (.new path name b.tree.reporter)
  (⟨store, { b.tree with projects := b.tree.projects.insert path id }⟩, id)

/-- The project at a path, made if there is none. -/
def ensure (b : Build) (path : ProjectPath) (name : String) : Build × ProjectId :=
  match b.tree.projects[path]? with
  | some id => (b, id)
  | none => b.add path name

/-- The project at a path, with every project that is missing on the way down to it from the root made. -/
def addProject (b : Build) (path : ProjectPath) : Build × ProjectId :=
  path.descent.foldl (fun (b, _) step => b.ensure step.1 step.2) (b, b.tree.root)

/--
The paths above the one with the segments `below`, the last one in front, at which no project stands: from the next one
upwards, as far as to the first at which one does.
-/
def missingAbove (b : Build) : (below : List String) → List ProjectPath
  | [] => []
  | _ :: above =>
    let parent : ProjectPath := ⟨above.reverse⟩
    if b.tree.projects.contains parent then [] else parent :: b.missingAbove above

/-- Makes the project of a path. The root has no name in its path, so it is not made in this way. -/
def create (b : Build) (path : ProjectPath) : Except BuildError (Build × ProjectId) :=
  match path.name? with
  | some name => .ok (b.add path name)
  | none => .error (.invalidPath path.render)

/-- Makes the projects of several paths in order. Gives the last one, if there is any. -/
def createAll (b : Build) (paths : List ProjectPath) : Except BuildError (Build × Option ProjectId) :=
  paths.foldlM (fun (b, _) path => do
    let (b, id) ← b.create path
    return (b, some id)) (b, none)

/-- The project at a path. If there is none, it and what is missing above it are made, from the top downwards. -/
def enroll (b : Build) (path : ProjectPath) : Except BuildError (Build × ProjectId) :=
  match b.tree.projects[path]? with
  | some id => .ok (b, id)
  | none => do
    let missing := path :: b.missingAbove path.segments.reverse
    let (b, last) ← b.createAll missing.reverse
    match last with
    | some id => .ok (b, id)
    | none => .error (.invalidPath path.render)

def find (b : Build) (path : ProjectPath) : Except BuildError ProjectId :=
  match b.tree.projects[path]? with
  | some id => .ok id
  | none => .error (.unknownProject path.render)

/-- The projects in the order of their paths, the root first. -/
def projects (b : Build) : List Project :=
  b.tree.projects.toList.filterMap fun entry => b.store.project? entry.2

end Build

end ProjectGraph
