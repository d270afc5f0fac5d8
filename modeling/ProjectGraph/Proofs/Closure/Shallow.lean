import ProjectGraph.Proofs.Closure.Gathered
import ProjectGraph.Proofs.Closure.Notices
import ProjectGraph.Proofs.Loops
import Mathlib.Data.List.Infix

/-!
Closures of the seeds alone. A walk that is not transitive takes up its seeds and nothing else. A transitive walk takes
up the same seeds first: what lies below them waits behind them, and no exclude rule holds for a seed. So whatever the
seeds alone give stands in front of what they give together with all that they lead to, in the same order, and where all
of this leads somewhere the seeds do.
-/

namespace ProjectGraph

namespace Store

variable {s : Store} {transitive : Bool} {seeds : List Dependency} {members : List Member}

theorem kids_of_intransitive (s : Store) (m : Member) : s.kids false m = [] := by
  simp [kids]

theorem handedOn_of_intransitive (s : Store) (d : Dependency) : s.handedOn false d = [] := by
  simp [handedOn]

/-- Every order starts with the seeds, each once. -/
theorem InOrder.prefix_seeds (h : InOrder s transitive seeds members []) :
    firstOccurrences seeds <+: members.map (·.dependency) := by
  rw [h.map_dependency_eq]
  exact prefix_firstOccurrences (List.prefix_append _ _)

/-- Without transitivity nothing comes behind them. -/
theorem InOrder.map_dependency_of_intransitive (h : InOrder s false seeds members []) :
    members.map (·.dependency) = firstOccurrences seeds := by
  have hkids : members.flatMap (s.kids false) = [] := List.flatMap_eq_nil_iff.2 fun m _ => s.kids_of_intransitive m
  rw [h.map_dependency_eq, hkids, List.append_nil]

/-- If nothing fails that the seeds lead to, the seeds alone do not fail. -/
theorem exists_closure_of_seeds {full : Closure}
    (h : (s.closure ((Intake.empty true).addDependencies seeds)).result = .ok full) :
    ∃ shallow, (s.closure ((Intake.empty false).addDependencies seeds)).result = .ok shallow := by
  obtain ⟨members, hhistory, _⟩ := history_of_closure h
  cases hshallow : (s.closure ((Intake.empty false).addDependencies seeds)).result with
  | ok shallow => exact ⟨shallow, rfl⟩
  | error x =>
      -- The edge at which it fails is a seed, so the transitive walk has taken it up as well.
      obtain ⟨order, front, e, back, horder, hsplit, _, hfails, _⟩ := closure_stops hshallow
      have hseeds : order.map (·.dependency) = firstOccurrences seeds := horder.map_dependency_of_intransitive
      have hseed : .project e ∈ firstOccurrences seeds := by
        rw [← hseeds, hsplit]
        simp
      exact absurd hfails (hhistory.not_failsWith e x (hhistory.prefix_seeds.subset hseed))

theorem dependencies_of_seeds {shallow : Closure}
    (h : (s.closure ((Intake.empty false).addDependencies seeds)).result = .ok shallow) :
    shallow.dependencies = firstOccurrences seeds := by
  obtain ⟨members, hhistory, hmembers⟩ := history_of_closure h
  exact hmembers.trans hhistory.map_dependency_of_intransitive

theorem constraints_of_seeds {shallow : Closure}
    (h : (s.closure ((Intake.empty false).addDependencies seeds)).result = .ok shallow) : shallow.constraints = [] := by
  have hnone : shallow.dependencies.flatMap (s.handedOn false) = [] :=
    List.flatMap_eq_nil_iff.2 fun d _ => s.handedOn_of_intransitive d
  have hconstraints : shallow.constraints =
      firstOccurrences ([] ++ shallow.dependencies.flatMap (s.handedOn false)) := constraints_of_closure h
  rw [hconstraints, hnone]
  rfl

/-- The dependencies of the seeds alone come first in the closure of all that they lead to. -/
theorem prefix_dependencies {full shallow : Closure}
    (h : (s.closure ((Intake.empty true).addDependencies seeds)).result = .ok full)
    (h' : (s.closure ((Intake.empty false).addDependencies seeds)).result = .ok shallow) :
    shallow.dependencies <+: full.dependencies := by
  obtain ⟨members, hhistory, hmembers⟩ := history_of_closure h
  rw [dependencies_of_seeds h', hmembers]
  exact hhistory.prefix_seeds

/-- So do their files. -/
theorem prefix_files {full shallow : Closure}
    (h : (s.closure ((Intake.empty true).addDependencies seeds)).result = .ok full)
    (h' : (s.closure ((Intake.empty false).addDependencies seeds)).result = .ok shallow) :
    shallow.files <+: full.files := by
  rw [files_of_closure h, files_of_closure h']
  exact prefix_firstOccurrences ((prefix_dependencies h h').flatMap s.filesOf)

/-- The files of an edge are those of a closure, and its producer is there. -/
theorem resolveFiles_eq_ok {e : Edge} {files : List FilePath} :
    (s.resolveFiles e transitive).result = .ok files ↔
      (∃ p, s.project? e.producer = some p) ∧
        ∃ c, (s.closure ((Intake.empty transitive).addDependencies [.project e])).result = .ok c ∧ c.files = files := by
  cases hp : s.project? e.producer with
  | none => simp [resolveFiles, producer, hp, Reporting.ofExcept]
  | some p =>
      rw [resolveFiles_eq hp, except_map_eq_ok]
      simp

/-- A closure that is not transitive is found wherever the transitive one is. It holds the seeds, each once, and neither
these nor their files are in another place than in the transitive closure, which goes on behind them; no constraints
are handed on. The files of an edge by itself are a beginning of those that it leads to. -/
theorem intransitive_closure_prefix (s : Store) :
    (∀ seeds full, (s.closure ((Intake.empty true).addDependencies seeds)).result = .ok full →
      ∃ shallow, (s.closure ((Intake.empty false).addDependencies seeds)).result = .ok shallow ∧
        shallow.dependencies = firstOccurrences seeds ∧ shallow.dependencies <+: full.dependencies ∧
        shallow.files <+: full.files ∧ shallow.constraints = []) ∧
    ∀ e files, (s.resolveFiles e true).result = .ok files →
      ∃ own, (s.resolveFiles e false).result = .ok own ∧ own <+: files := by
  constructor
  · intro seeds full hfull
    obtain ⟨shallow, hshallow⟩ := exists_closure_of_seeds hfull
    exact ⟨shallow, hshallow, dependencies_of_seeds hshallow, prefix_dependencies hfull hshallow,
      prefix_files hfull hshallow, constraints_of_seeds hshallow⟩
  · intro e files hfiles
    obtain ⟨hthere, full, hfull, rfl⟩ := resolveFiles_eq_ok.1 hfiles
    obtain ⟨shallow, hshallow⟩ := exists_closure_of_seeds hfull
    exact ⟨shallow.files, resolveFiles_eq_ok.2 ⟨hthere, shallow, hshallow, rfl⟩, prefix_files hfull hshallow⟩

end Store

namespace Build

/-- The application and the tool, with the application given twice. With all that they lead to there is a library more,
and two constraints. -/
theorem intransitive_closure_prefix_workshop :
    let seeds : List Dependency := [.project (offerOf 2 "app"), .project (offerOf 3 "tool"), .project (offerOf 2 "app")]
    (∃ full shallow, (workshop.store.closure ((Intake.empty true).addDependencies seeds)).result = .ok full ∧
      full.files.map (·.text) = ["app.jar", "tool.jar", "lib.jar"] ∧
      full.constraints = [⟨"g", "t", "1", none⟩, ⟨"g", "m", "2", none⟩] ∧
      (workshop.store.closure ((Intake.empty false).addDependencies seeds)).result = .ok shallow ∧
      shallow.dependencies = [.project (offerOf 2 "app"), .project (offerOf 3 "tool")] ∧
      shallow.files <+: full.files ∧ shallow.constraints = []) ∧
    ∃ files own, (workshop.store.resolveFiles (offerOf 2 "app") true).result = .ok files ∧
      files.map (·.text) = ["app.jar", "lib.jar", "tool.jar"] ∧
      (workshop.store.resolveFiles (offerOf 2 "app") false).result = .ok own ∧ own <+: files := by
  intro seeds
  obtain ⟨hclosures, hfiles⟩ := Store.intransitive_closure_prefix workshop.store
  constructor
  · have hwalk : (workshop.store.closure ((Intake.empty true).addDependencies seeds)).result.toOption.map
        (fun c => (c.files.map (·.text), c.constraints)) =
          some (["app.jar", "tool.jar", "lib.jar"], [⟨"g", "t", "1", none⟩, ⟨"g", "m", "2", none⟩]) := by
      decide +kernel
    obtain ⟨full, hfull, hfound⟩ := exists_eq_ok hwalk
    obtain ⟨htexts, hconstraints⟩ := Prod.mk.inj hfound
    obtain ⟨shallow, hshallow, hdependencies, _, hprefix, hnone⟩ := hclosures seeds full hfull
    have hseeds : firstOccurrences seeds = [.project (offerOf 2 "app"), .project (offerOf 3 "tool")] := by
      decide +kernel
    exact ⟨full, shallow, hfull, htexts, hconstraints, hshallow, hdependencies.trans hseeds, hprefix, hnone⟩
  · have hresolved : (workshop.store.resolveFiles (offerOf 2 "app") true).result.toOption.map (·.map (·.text)) =
        some ["app.jar", "lib.jar", "tool.jar"] := by
      decide +kernel
    obtain ⟨files, hok, htexts⟩ := exists_eq_ok hresolved
    obtain ⟨own, hown, hprefix⟩ := hfiles _ files hok
    exact ⟨files, own, hok, htexts, hown, hprefix⟩

end Build

end ProjectGraph
