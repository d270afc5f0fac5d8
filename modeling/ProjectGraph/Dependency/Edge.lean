import ProjectGraph.Dependency.Request
import ProjectGraph.Path.Project

/-!
Edges: dependencies of one project on a configuration of another project of the same build. An edge names
its producer and holds nothing of it but its path, so all else is read from the producer as it is when it
is asked for.

Two edges are the same (`==`) if they ask for the same thing: path, target configuration, build flag,
attributes and capabilities. Whether an edge is transitive and what it excludes do not belong to its
identity. `contentEquals` compares the whole request instead.
-/

namespace ProjectGraph

/-- The configuration that an edge means if it names none. -/
def defaultConfiguration : String := "default"

/-- Which project of a store. -/
structure ProjectId where
  index : Nat
  deriving DecidableEq, Inhabited

structure Edge where
  producer : ProjectId
  path : ProjectPath
  /-- Whether the producer's tasks must run before its files can be used. -/
  buildsProducer : Bool
  request : Request
  deriving DecidableEq, Inhabited

namespace Edge

/-- The configuration that the edge selects on its producer. -/
def target (e : Edge) : String := e.request.targetConfiguration.getD defaultConfiguration

/-- What two edges must share to be the same. -/
def identity (e : Edge) : ProjectPath × Option String × Bool × Attributes × List Capability :=
  (e.path, e.request.targetConfiguration, e.buildsProducer, e.request.attributes, e.request.capabilities)

instance : BEq Edge where
  beq a b := a.path == b.path && a.request.targetConfiguration == b.request.targetConfiguration &&
    a.buildsProducer == b.buildsProducer && decide (a.request.attributes = b.request.attributes) &&
    a.request.capabilities == b.request.capabilities

theorem beq_iff {a b : Edge} : a == b ↔ a.identity = b.identity := by
  have h : (a == b) = (a.path == b.path && a.request.targetConfiguration == b.request.targetConfiguration &&
    a.buildsProducer == b.buildsProducer && decide (a.request.attributes = b.request.attributes) &&
    a.request.capabilities == b.request.capabilities) := rfl
  simp [h, identity, and_assoc]

instance : EquivBEq Edge where
  rfl := beq_iff.2 rfl
  symm h := beq_iff.2 (beq_iff.1 h).symm
  trans h h' := beq_iff.2 ((beq_iff.1 h).trans (beq_iff.1 h'))

/-- Compares the requests as a whole, and the paths. -/
def contentEquals (a b : Edge) : Bool :=
  decide (a.request = b.request) && decide (a.path = b.path)

/-- Stands for the hash of a configuration that is not named. -/
def absentConfigurationHash : UInt64 := 31

/-- Joins hashes of path and target configuration and the build flag, whatever the hash functions are. -/
def contentHash (ofPath : ProjectPath → UInt64) (ofName : String → UInt64) (e : Edge) : UInt64 :=
  ofPath e.path ^^^ (e.request.targetConfiguration.elim absentConfigurationHash ofName) ^^^
    (if e.buildsProducer then 1 else 0)

/-- An edge to a project with all that is asked of it. -/
def requesting (producer : ProjectId) (path : ProjectPath) (buildsProducer : Bool) (r : Request) : Edge :=
  ⟨producer, path, buildsProducer, r⟩

/-- A new edge to the same target with the same request. -/
def copy (e : Edge) : Edge :=
  { e with request := e.request.copyTo (.targeting e.request.targetConfiguration) }

def setTransitive (e : Edge) (transitive : Bool) : Edge :=
  { e with request := { e.request with transitive } }

def addAttribute (e : Edge) (key value : String) : Edge :=
  { e with request := { e.request with attributes := e.request.attributes.insert key value } }

def addCapability (e : Edge) (c : Capability) : Edge :=
  { e with request := { e.request with capabilities := e.request.capabilities ++ [c] } }

def addExclude (e : Edge) (r : ExcludeRule) : Edge :=
  { e with request := { e.request with excludes := e.request.excludes ++ [r] } }

/-- Several capabilities, one after the other. -/
def addCapabilities (e : Edge) (cs : List Capability) : Edge :=
  { e with request := { e.request with capabilities := e.request.capabilities ++ cs } }

/-- Several rules, one after the other. -/
def addExcludes (e : Edge) (rs : List ExcludeRule) : Edge :=
  { e with request := { e.request with excludes := e.request.excludes ++ rs } }

/-- Asks for what a request asks for, its target left out, part by part. -/
def asking (e : Edge) (r : Request) : Edge :=
  let e := e.setTransitive r.transitive
  let e := r.attributes.entries.foldl (fun e a => e.addAttribute a.1 a.2) e
  (e.addCapabilities r.capabilities).addExcludes r.excludes

theorem foldl_addCapability (e : Edge) (cs : List Capability) : cs.foldl addCapability e = e.addCapabilities cs := by
  induction cs generalizing e with
  | nil => simp [addCapabilities]
  | cons c cs ih =>
    rw [List.foldl_cons, ih]
    simp [addCapabilities, addCapability]

theorem foldl_addExclude (e : Edge) (rs : List ExcludeRule) : rs.foldl addExclude e = e.addExcludes rs := by
  induction rs generalizing e with
  | nil => simp [addExcludes]
  | cons r rs ih =>
    rw [List.foldl_cons, ih]
    simp [addExcludes, addExclude]

theorem foldl_addAttribute (e : Edge) (as : List (String × String)) :
    as.foldl (fun e a => e.addAttribute a.1 a.2) e = { e with request := { e.request with
      attributes := as.foldl (fun m a => m.insert a.1 a.2) e.request.attributes } } := by
  induction as generalizing e with
  | nil => rfl
  | cons a as ih => rw [List.foldl_cons, ih]; rfl

/-- Asking for the parts of a request is asking for their items one by one. -/
theorem asking_eq (e : Edge) (r : Request) :
    e.asking r = r.excludes.foldl addExclude (r.capabilities.foldl addCapability
      (r.attributes.entries.foldl (fun e a => e.addAttribute a.1 a.2) (e.setTransitive r.transitive))) := by
  rw [foldl_addCapability, foldl_addExclude]
  rfl

/-- A new edge that asks for the parts of a request one by one asks for the request. -/
theorem asking_targeting (producer : ProjectId) (path : ProjectPath) (buildsProducer : Bool) (r : Request) :
    (requesting producer path buildsProducer (.targeting r.targetConfiguration)).asking r =
      requesting producer path buildsProducer r := by
  have hattributes : r.attributes.entries.foldl (fun m a => m.insert a.1 a.2) .empty = r.attributes :=
    r.attributes.ofList_entries
  simp only [asking, foldl_addAttribute]
  simp [requesting, Request.targeting, setTransitive, addCapabilities, addExcludes, hattributes]

def render (e : Edge) : String :=
  "ProjectDependency\x7bidentityPath='" ++ e.path.render ++ "', configuration='" ++ e.target ++ "'\x7d"

end Edge

end ProjectGraph
