import ProjectGraph.Answers
import ProjectGraph.Dependency.Destination
import ProjectGraph.Expansion
import ProjectGraph.FirstOccurrences

/-!
What taking up one dependency brings to a closure: files, constraints and further dependencies, under the
exclude rules in force. All but the rules is a matter of the destination of an edge, which is what a walk keeps
answers on.
-/

namespace ProjectGraph

/-- A dependency that waits to be taken up, with the exclude rules of the edges above it. -/
structure Pending where
  dependency : Dependency
  excludes : List ExcludeRule
  deriving Inhabited

/-- What taking up one dependency brings. -/
structure Yield where
  files : List FilePath
  constraints : List Constraint
  below : List Pending
  deriving Inhabited

namespace Store

/-- What lies directly below a dependency, before anything is excluded. -/
def below (s : Store) : Dependency → List Dependency
  | .module _ => []
  | .project e =>
    match (s.select e).result, s.producer e with
    | .ok c, .ok p =>
      match p.container.allDependencies c with
      | .ok ds => ds
      | .error _ => []
    | _, _ => []

theorem mem_declared_of_mem_below {s : Store} {d x : Dependency} (h : d ∈ s.below x) : d ∈ s.declared := by
  unfold below at h
  split at h
  · cases h
  · rename_i e
    split at h
    · rename_i c p hc hp
      split at h
      · rename_i ds hds
        obtain ⟨p', hp', hmem⟩ := select_eq_ok hc
        rw [producer_eq_ok.1 hp] at hp'
        cases hp'
        exact mem_declared (producer_eq_ok.1 hp) (Container.mem_of_allDependencies hmem hds h)
      · cases h
    · cases h

/-- The rules in force below an edge. -/
def rulesBelow (above : List ExcludeRule) (e : Edge) : List ExcludeRule := appendNew above e.request.excludes

/-- Takes up a dependency: selects the target of an edge, and collects its files and its expansion. -/
def takeUp (s : Store) (transitive : Bool) (p : Pending) : Reporting Yield :=
  match p.dependency with
  | .module _ => pure ⟨[], [], []⟩
  | .project e => do
    let c ← s.select e
    let producer ← .ofExcept (s.producer e)
    let artifacts ← .ofExcept (producer.container.allArtifacts c)
    let (intake, result) := s.expandSelected e c (.empty transitive)
    .ofExcept result
    let rules := rulesBelow p.excludes e
    return {
      files := artifacts.map (·.file)
      constraints := intake.constraints
      below := (intake.dependencies.filter (!s.excluded rules ·)).map fun d => ⟨d, rules⟩ }

theorem expandSelected_dependencies {s : Store} {e : Edge} {c : Configuration} {transitive : Bool}
    {p : Project} (hc : (s.select e).result = .ok c) (hp : s.producer e = .ok p)
    (h : (s.expandSelected e c (.empty transitive)).2 = .ok ()) :
    (s.expandSelected e c (.empty transitive)).1.dependencies.Sublist (s.below (.project e)) := by
  unfold expandSelected at h ⊢
  split
  · rename_i hex
    rw [if_pos hex] at h
    simp only [hp, handOver] at h ⊢
    cases hds : p.container.allDependencies c with
    | error x => rw [hds] at h; cases h
    | ok ds =>
      cases hcs : p.container.allConstraints c with
      | error x => rw [hds, hcs] at h; cases h
      | ok cs =>
        simp [below, hc, hp, hds, Intake.addConstraints, Intake.addDependencies, Intake.empty]
  · exact List.nil_sublist _

/-- What taking up a dependency puts to the waiting list lies below it. -/
theorem takeUp_below {s : Store} {transitive : Bool} {p : Pending} {y : Yield}
    (h : (s.takeUp transitive p).result = .ok y) :
    (y.below.map (·.dependency)).Sublist (s.below p.dependency) := by
  obtain ⟨d, excludes⟩ := p
  unfold takeUp at h
  cases d with
  | module m => cases h; exact List.nil_sublist _
  | project e =>
    obtain ⟨c, hc, h⟩ := Reporting.bind_eq_ok.1 h
    obtain ⟨producer, hp, h⟩ := Reporting.bind_eq_ok.1 h
    obtain ⟨artifacts, _, h⟩ := Reporting.bind_eq_ok.1 h
    obtain ⟨_, hr, h⟩ := Reporting.bind_eq_ok.1 h
    cases h
    simp only [List.map_map, Function.comp_def, List.map_id']
    exact List.filter_sublist.trans (expandSelected_dependencies hc hp hr)

/-! ### Destinations -/

/-- What a destination has for the edges that lead there. -/
structure Offer where
  files : List FilePath
  /-- What it hands over to an expansion, and how this ends. -/
  expansion : Intake × Except BuildError Unit

/-- What a destination offers; nothing can be said if the project is gone. -/
def offer (s : Store) (d : Destination) : Option (Reporting Offer) :=
  (s.project? d.producer).map fun p => do
    let c ← selectFrom p d.target
    let artifacts ← .ofExcept (p.container.allArtifacts c)
    return ⟨artifacts.map (·.file), handOver p.container c (.empty true)⟩

/-- What an edge takes of an offer. -/
def takeOffer (s : Store) (transitive : Bool) (above : List ExcludeRule) (e : Edge) (o : Offer) :
    Reporting Yield := do
  let (intake, result) := if e.request.transitive && transitive then o.expansion else (.empty true, .ok ())
  .ofExcept result
  let rules := rulesBelow above e
  return {
    files := o.files
    constraints := intake.constraints
    below := (intake.dependencies.filter (!s.excluded rules ·)).map fun d => ⟨d, rules⟩ }

theorem takeUp_project (s : Store) (transitive : Bool) (above : List ExcludeRule) (e : Edge) :
    s.takeUp transitive ⟨.project e, above⟩ =
      (s.offer e.destination).getD (.fail (.unknownProject e.path.render)) >>=
        s.takeOffer transitive above e := by
  simp only [takeUp, offer, select, producer, Edge.destination]
  cases hp : s.project? e.producer with
  | none => rfl
  | some p =>
    simp only [Option.map_some, Option.getD_some]
    generalize selectFrom p e.target = selected
    obtain ⟨notices, result⟩ := selected
    cases result with
    | error x => rfl
    | ok c =>
      cases ha : p.container.allArtifacts c with
      | error x => simp [ha, Reporting.ofExcept, Reporting.after]
      | ok artifacts =>
        cases ht : e.request.transitive <;> cases transitive <;>
          simp [ha, hp, ht, takeOffer, expandSelected, expands, producer, Intake.empty, Reporting.ofExcept,
            Reporting.after]

/-- The answers on destinations that a walk keeps. -/
abbrev OfferAnswers (s : Store) : Type := Answers s.offer

/-- Takes up a dependency. -/
def OfferAnswers.takeUp {s : Store} (answers : OfferAnswers s) (transitive : Bool) :
    (p : Pending) → { taken // taken = s.takeUp transitive p } × OfferAnswers s
  | ⟨.module _, _⟩ => (⟨pure ⟨[], [], []⟩, rfl⟩, answers)
  | ⟨.project e, above⟩ =>
    let (found, answers) := answers.ask e.destination
    (⟨found.val.getD (.fail (.unknownProject e.path.render)) >>= s.takeOffer transitive above e, by
      rw [takeUp_project, found.property]⟩, answers)

end Store

end ProjectGraph
