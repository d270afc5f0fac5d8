import ProjectGraph.Store

/-!
Selecting the configuration that an edge targets. Everything is looked up afresh, so what has been renamed
or replaced since the last time is seen. A dropped producer, a missing configuration and one that is not
consumable fail, in this order, and raise nothing; a deprecated target is selected and raises one notice.
-/

namespace ProjectGraph

namespace Store

/-- The producer of an edge, as long as something keeps it. -/
def producer (s : Store) (e : Edge) : Except BuildError Project :=
  match s.project? e.producer with
  | some p => .ok p
  | none => .error (.unknownProject e.path.render)

/-- What the producer of an edge says of itself, as it is now. -/
def ofProducer (s : Store) (e : Edge) (part : Project → String) : Except BuildError String := (s.producer e).map part

def producerGroup (s : Store) (e : Edge) : Except BuildError String := s.ofProducer e (·.group)

def producerName (s : Store) (e : Edge) : Except BuildError String := s.ofProducer e (·.name)

def producerVersion (s : Store) (e : Edge) : Except BuildError String := s.ofProducer e (·.version)

/-- The notices that a configuration raises when it is selected. -/
def consumptionNotices (reporter : ReporterId) (c : Configuration) : List Raised :=
  c.consumptionDeprecation.toList.map fun replacements => ⟨reporter, .consumption c.name replacements⟩

/-- The configuration of a project that an edge with this target may use. -/
def selectFrom (p : Project) (target : String) : Reporting Configuration :=
  match p.container.find target with
  | .error x => .fail x
  | .ok c =>
    if c.roles.consumable then ⟨consumptionNotices p.reporter c, .ok c⟩
    else .fail (.notConsumable p.displayName c.name)

/-- The configuration that an edge targets. -/
def select (s : Store) (e : Edge) : Reporting Configuration :=
  match s.producer e with
  | .error x => .fail x
  | .ok p => selectFrom p e.target

/-- Modules go by their own group and name, edges by those of the producer; a dropped one goes by none. -/
def excluded (s : Store) (rules : List ExcludeRule) : Dependency → Bool
  | .module m => rules.any (·.matches m.group m.name)
  | .project e =>
    match s.project? e.producer with
    | some p => rules.any (·.matches p.group p.name)
    | none => false

theorem mem_configurations_of_selectFrom {p : Project} {target : String} {c : Configuration}
    (h : (selectFrom p target).result = .ok c) : c ∈ p.container.configurations := by
  unfold selectFrom at h
  split at h
  · cases h
  · rename_i c' hfind
    split at h
    · cases h
      exact Container.mem_configurations_of_find hfind
    · cases h

theorem producer_eq_ok {s : Store} {e : Edge} {p : Project} :
    s.producer e = .ok p ↔ s.project? e.producer = some p := by
  unfold producer
  cases s.project? e.producer <;> simp

/-- A selected configuration is registered in the producer. -/
theorem select_eq_ok {s : Store} {e : Edge} {c : Configuration} (h : (s.select e).result = .ok c) :
    ∃ p, s.project? e.producer = some p ∧ c ∈ p.container.configurations := by
  unfold select at h
  split at h
  · cases h
  · rename_i p hp
    exact ⟨p, producer_eq_ok.1 hp, mem_configurations_of_selectFrom h⟩

end Store

end ProjectGraph
