import ProjectGraph.Deprecation.Reporter
import ProjectGraph.Project

/-!
The store of all projects and reporters. A project has a number that never changes; when nothing keeps a
project any more it is dropped, and its number leads nowhere from then on. Edges know their producer by
number only, so they do not keep it.
-/

namespace ProjectGraph

structure Store where
  /-- By number; a dropped project leaves its place empty. -/
  projects : List (Option Project)
  /-- By number. -/
  reporters : List Reporter
  deriving Inhabited

namespace Store

def empty : Store := ⟨[], []⟩

def project? (s : Store) (id : ProjectId) : Option Project := (s.projects[id.index]?).join

def add (s : Store) (p : Project) : Store × ProjectId :=
  ({ s with projects := s.projects ++ [some p] }, ⟨s.projects.length⟩)

/-- Changes a project that is there. -/
def modify (s : Store) (id : ProjectId) (f : Project → Project) : Store :=
  { s with projects := s.projects.modify id.index (Option.map f) }

/-- The numbers below `size`, each with whether a project of the list has it. -/
def marks (size : Nat) (kept : List ProjectId) : Array Bool :=
  kept.foldl (fun marks id => marks.setIfInBounds id.index true) (Array.replicate size false)

/-- Drops all projects but those of the list. -/
def retain (s : Store) (kept : List ProjectId) : Store :=
  let marks := marks s.projects.length kept
  { s with projects := s.projects.mapIdx fun i p => if marks.getD i false then p else none }

def addReporter (s : Store) (mode : WarningMode) : Store × ReporterId :=
  ({ s with reporters := s.reporters ++ [.start mode] }, ⟨s.reporters.length⟩)

def reporter (s : Store) (id : ReporterId) : Reporter := s.reporters[id.index]?.getD default

/-- Hands a notice to its reporter. -/
def deliver (s : Store) (r : Raised) : Store :=
  { s with reporters := s.reporters.modify r.reporter.index (·.report r.notice) }

/-- The lines that a notice gives when it is handed over. They depend on the mode of its reporter alone. -/
def shown (s : Store) (r : Raised) : List String := (s.reporter r.reporter).shown r.notice

/-- Hands over notices in order. Gives the lines that they give. -/
def deliverAll (s : Store) (rs : List Raised) : Store × List String :=
  (rs.foldl deliver s, rs.flatMap s.shown)

/-- All registered configurations, each with the number of its project. -/
def configurations (s : Store) : List (ProjectId × Configuration) :=
  s.projects.zipIdx.flatMap fun (p, i) =>
    p.toList.flatMap fun p => p.container.configurations.map fun c => (⟨i⟩, c)

/-- All dependencies that are declared anywhere. -/
def declared (s : Store) : List Dependency :=
  s.configurations.flatMap fun c => c.2.dependencies

theorem mode_reporter_deliver (s : Store) (r : Raised) (id : ReporterId) :
    ((s.deliver r).reporter id).mode = (s.reporter id).mode := by
  simp only [deliver, reporter, List.getElem?_modify]
  cases s.reporters[id.index]? with
  | none => rfl
  | some k => by_cases h : r.reporter.index = id.index <;> simp [h, Reporter.report]

/-- What was handed over before does not change what is shown. -/
@[simp] theorem shown_deliver (s : Store) (r : Raised) : (s.deliver r).shown = s.shown := by
  funext later
  simp only [shown, Reporter.shown, mode_reporter_deliver]

theorem mem_configurations {s : Store} {id : ProjectId} {p : Project} (hp : s.project? id = some p)
    {c : Configuration} (hc : c ∈ p.container.configurations) : (id, c) ∈ s.configurations := by
  unfold project? at hp
  refine List.mem_flatMap.2 ⟨(some p, id.index), ?_, ?_⟩
  · refine List.mem_zipIdx_iff_getElem?.2 ?_
    simpa [Option.join_eq_some_iff] using hp
  · simpa using hc

theorem mem_declared {s : Store} {id : ProjectId} {p : Project} (hp : s.project? id = some p)
    {d : Dependency} (hd : d ∈ p.container.configurations.flatMap (·.dependencies)) : d ∈ s.declared := by
  obtain ⟨c, hc, hd⟩ := List.mem_flatMap.1 hd
  exact List.mem_flatMap.2 ⟨(id, c), mem_configurations hp hc, hd⟩

theorem getD_marks {size : Nat} {kept : List ProjectId} {i : Nat} (hi : i < size) :
    (marks size kept).getD i false = decide (⟨i⟩ ∈ kept) := by
  suffices h : ∀ marked : Array Bool, marked.size = size →
      (kept.foldl (fun marks id => marks.setIfInBounds id.index true) marked).getD i false =
        (marked.getD i false || decide (⟨i⟩ ∈ kept)) by
    simpa [marks, hi] using h (Array.replicate size false) (by simp)
  induction kept with
  | nil => simp
  | cons id kept ih =>
    intro marked hsize
    rw [List.foldl_cons, ih _ (by simpa using hsize)]
    obtain ⟨index⟩ := id
    by_cases h : index = i
    · subst h
      simp [Array.getD_eq_getD_getElem?, hsize, hi]
    · have h' : i ≠ index := fun h' => h h'.symm
      simp [Array.getD_eq_getD_getElem?, h, h']

theorem project?_retain (s : Store) (kept : List ProjectId) (id : ProjectId) :
    (s.retain kept).project? id = if id ∈ kept then s.project? id else none := by
  obtain ⟨i⟩ := id
  simp only [project?, retain, List.getElem?_mapIdx]
  by_cases hi : i < s.projects.length
  · rw [getD_marks hi]
    by_cases hk : (⟨i⟩ : ProjectId) ∈ kept <;> simp [hk, hi]
  · simp [List.getElem?_eq_none (Nat.le_of_not_lt hi)]

end Store

end ProjectGraph
