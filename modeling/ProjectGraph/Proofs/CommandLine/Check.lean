import ProjectGraph.Proofs.BuildFile.Loaded
import ProjectGraph.Proofs.Closure.Attained
import ProjectGraph.Proofs.CommandLine.Tasks
import ProjectGraph.Proofs.Container.Unfolding

/-!
What `check` says about the other commands. It looks at the edges that the configurations themselves declare, one by
one, and at no hierarchy. The walks start from what a configuration declares or inherits, drop what is the same, and
go on to other projects. In a build that was loaded they meet declared edges only. So if `check` succeeds and all
hierarchies are there, no edge fails that a walk could meet, and all walks succeed.

Conversely a closure fails at the edges it starts from, whether or not it goes further. Each declared edge is among
these for the configuration that declares it, or one that is the same and leads to the same place. So if the closures
of all configurations are there, no declared edge fails.
-/

namespace ProjectGraph

namespace Build

variable {b : Build} {p : Project} {name : String} {c : Configuration} {e : Edge} {ds : List Dependency}

/-! ### Projects and declared edges -/

/-- An edge is declared if a configuration of a project declares it. -/
theorem mem_edges_iff_projects :
    e ∈ b.edges ↔ ∃ p ∈ b.projects, ∃ c ∈ p.container.configurations, .project e ∈ c.dependencies := by
  rw [mem_edges_iff]
  constructor
  · rintro ⟨path, id, p, name, c, hid, hp, hc, he⟩
    exact ⟨p, mem_projects_iff.2 ⟨path, id, hid, hp⟩, c, Container.mem_configurations_of_find? hc, he⟩
  · rintro ⟨p, hp, c, hc, he⟩
    obtain ⟨path, id, hid, hstore⟩ := mem_projects_iff.1 hp
    obtain ⟨name, hname⟩ := Container.mem_configurations_iff.1 hc
    exact ⟨path, id, p, name, c, hid, hstore, hname, he⟩

/-- What a configuration declares or inherits are declared edges and modules. -/
theorem mem_edges_of_allDependencies (hp : p ∈ b.projects) (hc : c ∈ p.container.configurations)
    (hds : p.container.allDependencies c = .ok ds) (he : .project e ∈ ds) : e ∈ b.edges := by
  obtain ⟨path, id, hid, hstore⟩ := mem_projects_iff.1 hp
  obtain ⟨name, hname⟩ := Container.mem_configurations_iff.1 hc
  have hr : b.Registers path name id p c := ⟨hid, hstore, hname⟩
  exact hr.mem_edges hds he

theorem map_edge_declaredEdges (b : Build) : b.declaredEdges.map (·.edge) = b.edges := by
  simp [declaredEdges, edges, projects, Container.configurations, List.map_flatMap, List.flatMap_map,
    List.filterMap_eq_flatMap_toList, List.flatMap_assoc, Function.comp_def]

/-- `check` succeeds if no selection fails. -/
theorem check_eq_ok_iff : b.check.result = .ok () ↔ ∀ e ∈ b.edges, ∃ c, (b.store.select e).result = .ok c := by
  have hnone : (b.declaredEdges.map fun d => (d, b.store.select d.edge)).countP (fun s => !s.2.result.isOk) = 0 ↔
      ∀ e ∈ b.edges, ∃ c, (b.store.select e).result = .ok c := by
    rw [List.countP_eq_zero, ← map_edge_declaredEdges]
    simp only [List.forall_mem_map]
    refine forall₂_congr fun d _ => ?_
    cases (b.store.select d.edge).result <;> simp [Except.isOk, Except.toBool]
  rw [← hnone]
  unfold check
  simp only
  split
  · rename_i hfailed
    constructor
    · intro h
      cases h
    · intro h
      rw [h] at hfailed
      cases hfailed
  · rename_i hfailed
    exact iff_of_true rfl (Nat.eq_zero_of_not_pos hfailed)

/-! ### Good builds -/

/-- All registered configurations of all projects have a hierarchy. -/
def HasHierarchies (b : Build) : Prop :=
  ∀ p ∈ b.projects, ∀ c ∈ p.container.configurations, ∃ members, p.container.hierarchy c = .ok members

instance (b : Build) : Decidable b.HasHierarchies :=
  decidable_of_iff (∀ p ∈ b.projects, ∀ c ∈ p.container.configurations, (p.container.hierarchy c).isOk = true) <| by
    refine forall₂_congr fun p _ => forall₂_congr fun c _ => ?_
    cases p.container.hierarchy c <;> simp [Except.isOk, Except.toBool]

/-- The projects have what edges need: all configurations a hierarchy, and all declared edges a target. -/
structure Good (b : Build) : Prop where
  hierarchies : b.HasHierarchies
  leads : ∀ e ∈ b.edges, ¬ b.store.Fails e

/-- `check` sees the target of an edge but not its hierarchy. The target is a configuration of the build. -/
theorem Proper.good_iff (hb : b.Proper) : b.Good ↔ b.check.result = .ok () ∧ b.HasHierarchies := by
  rw [check_eq_ok_iff]
  constructor
  · rintro ⟨hierarchies, leads⟩
    refine ⟨?_, hierarchies⟩
    intro e he
    obtain ⟨p, c, _, hsel, _⟩ := Store.not_fails_iff.1 (leads e he)
    exact ⟨c, hsel.2⟩
  · rintro ⟨hselect, hierarchies⟩
    refine ⟨hierarchies, ?_⟩
    intro e he
    obtain ⟨c, hc⟩ := hselect e he
    obtain ⟨p, hsel⟩ := Store.exists_selects_iff.2 hc
    have hp : p ∈ b.projects :=
      mem_projects_iff.2 ⟨e.path, e.producer, hb.selfContained e he, (Store.selects_iff.1 hsel).1⟩
    obtain ⟨members, hmembers⟩ := hierarchies p hp c hsel.mem_configurations
    exact Store.not_fails_iff.2 ⟨p, c, members, hsel, hmembers⟩

/-! ### Commands on a configuration -/

/-- The command succeeds for all registered configurations of all projects. -/
def SucceedsEverywhere (b : Build) (command : String → String → Command) : Prop :=
  ∀ p ∈ b.projects, ∀ name ∈ p.container.names, (b.carryOut (command p.path.render name)).result = .ok ()

/-- A project of the tree is found at its own path, and is sound there. -/
theorem Coherent.found (hb : b.Coherent) (hp : p ∈ b.projects) :
    ∃ id, b.tree.projects[p.path]? = some id ∧ b.store.project? id = some p ∧ Sound p.path p := by
  obtain ⟨path, id, hid, hstore⟩ := mem_projects_iff.1 hp
  obtain ⟨q, hq, hsound⟩ := hb path id hid
  rw [hstore] at hq
  cases hq
  rw [← hsound.path_eq] at hid
  exact ⟨id, hid, hstore, rfl, hsound.owner_eq.trans hsound.path_eq.symm, hsound.keyed⟩

/-- A project goes by its own path, which can be written and read again. -/
theorem Proper.dependenciesOf_eq (hb : b.Proper) (hp : p ∈ b.projects) (hc : p.container.find? name = some c) :
    b.dependenciesOf p.path.render name = p.container.allDependencies c := by
  obtain ⟨id, hid, hstore, _⟩ := hb.reachable.coherent.found hp
  have hr : b.Registers p.path name id p c := ⟨hid, hstore, hc⟩
  exact hr.dependenciesOf_eq (ProjectPath.parse_render (hb.written p.path id hid))

/-- In a good build what a configuration declares or inherits is there, and the edges in it are declared ones. -/
theorem Good.dependenciesOf_eq_ok (hgood : b.Good) (hb : b.Proper) (hp : p ∈ b.projects)
    (hname : name ∈ p.container.names) :
    ∃ ds, b.dependenciesOf p.path.render name = .ok ds ∧ ∀ e, .project e ∈ ds → e ∈ b.edges := by
  obtain ⟨c, hc⟩ := Container.mem_names_iff.1 hname
  have hmem : c ∈ p.container.configurations := Container.mem_configurations_of_find? hc
  obtain ⟨members, hmembers⟩ := hgood.hierarchies p hp c hmem
  have hds : p.container.allDependencies c = .ok _ := Container.inherited_eq_ok.2 ⟨members, hmembers, rfl⟩
  exact ⟨_, (hb.dependenciesOf_eq hp hc).trans hds, fun e => mem_edges_of_allDependencies hp hmem hds⟩

/-! ### Closures -/

theorem closure_eq_ok_iff {project configuration : String} {transitive : Bool} :
    (b.closure project configuration transitive).result = .ok () ↔
      ∃ ds, b.dependenciesOf project configuration = .ok ds ∧
        ∃ c, (b.store.closure ((Intake.empty transitive).addDependencies ds)).result = .ok c := by
  unfold closure
  constructor
  · intro h
    obtain ⟨ds, hds, h⟩ := Transcript.bind_eq_ok.1 h
    obtain ⟨c, hc, _⟩ := Transcript.bind_eq_ok.1 h
    exact ⟨ds, hds, c, hc⟩
  · rintro ⟨ds, hds, c, hc⟩
    exact Transcript.bind_eq_ok.2 ⟨ds, hds, Transcript.bind_eq_ok.2 ⟨c, hc, rfl⟩⟩

/-- In a good build there is a closure from any declared edges. -/
theorem Good.exists_closure (hgood : b.Good) (hself : b.SelfContained) (transitive : Bool)
    (hds : ∀ e, .project e ∈ ds → e ∈ b.edges) :
    ∃ c, (b.store.closure ((Intake.empty transitive).addDependencies ds)).result = .ok c := by
  refine Store.exists_closure_of_attains ?_
  intro e he
  have hdeclared : ∀ x, .project x ∈ ds ∨ x ∈ b.edges → x ∈ b.edges := fun x hx => hx.elim (hds x) id
  have hinto : ∀ x, .project x ∈ ds ∨ x ∈ b.edges → x.Into b := fun x hx => hself x (hdeclared x hx)
  exact hgood.leads e (hdeclared e (seed_or_edge_of_attains hinto he e rfl))

/-- If the closure of a configuration is there, the edges that it declares itself lead somewhere. -/
theorem Proper.not_fails_of_closure (hb : b.Proper) (hp : p ∈ b.projects) (hc : p.container.find? name = some c)
    {transitive : Bool} {reached : Closure} (hds : p.container.allDependencies c = .ok ds)
    (h : (b.store.closure ((Intake.empty transitive).addDependencies ds)).result = .ok reached)
    (he : .project e ∈ c.dependencies) : ¬ b.store.Fails e := by
  have hmem : c ∈ p.container.configurations := Container.mem_configurations_of_find? hc
  have hdeclared : ∀ x, .project x ∈ ds ∨ x ∈ b.edges → x ∈ b.edges := fun x hx =>
    hx.elim (mem_edges_of_allDependencies hp hmem hds) id
  obtain ⟨_, _, _, hsound⟩ := hb.reachable.coherent.found hp
  obtain ⟨members, hmembers, rfl⟩ := Container.inherited_eq_ok.1 hds
  have hown : .project e ∈ members.flatMap (·.dependencies) :=
    List.mem_flatMap.2 ⟨c, (Container.mem_hierarchy_iff hsound.keyed hmembers).2 .self, he⟩
  -- What is the same is dropped twice: among the seeds and on the walk.
  obtain ⟨seed, hseed, hsame⟩ := exists_mem_firstOccurrences hown
  obtain ⟨d, hd, hsame'⟩ := Store.exists_mem_closure_beq h hseed
  have hkept : (d == .project e) = true := BEq.trans hsame' (BEq.symm hsame)
  cases d with
  | module m => cases hkept
  | project x =>
      have hx : x ∈ b.edges := hdeclared x (seed_or_edge_of_attains
        (fun y hy => hb.selfContained y (hdeclared y hy)) (Store.attains_of_mem h hd) x rfl)
      have he : e ∈ b.edges := mem_edges_iff_projects.2 ⟨p, hp, c, hmem, he⟩
      have hdestination : e.destination = x.destination :=
        destination_eq_of_beq (hb.selfContained e he) (hb.selfContained x hx) (BEq.symm hkept)
      exact fun hfails => Store.not_fails_of_mem h hd (hfails.of_destination hdestination)

/-- All closures are there exactly if the build is good, whether or not they go further than their seeds. -/
theorem Proper.closures_iff (hb : b.Proper) (intransitive : Bool) :
    b.SucceedsEverywhere (.closure · · intransitive) ↔ b.Good := by
  constructor
  · intro hclosures
    have hwalks : ∀ p ∈ b.projects, ∀ name c, p.container.find? name = some c →
        ∃ ds, p.container.allDependencies c = .ok ds ∧
          ∃ reached, (b.store.closure ((Intake.empty !intransitive).addDependencies ds)).result = .ok reached := by
      intro p hp name c hc
      have h := closure_eq_ok_iff.1 (hclosures p hp name (Container.mem_names_iff.2 ⟨c, hc⟩))
      rwa [hb.dependenciesOf_eq hp hc] at h
    constructor
    · intro p hp c hc
      obtain ⟨name, hname⟩ := Container.mem_configurations_iff.1 hc
      obtain ⟨ds, hds, _⟩ := hwalks p hp name c hname
      obtain ⟨members, hmembers, _⟩ := Container.inherited_eq_ok.1 hds
      exact ⟨members, hmembers⟩
    · intro e he
      obtain ⟨p, hp, c, hc, hdeclared⟩ := mem_edges_iff_projects.1 he
      obtain ⟨name, hname⟩ := Container.mem_configurations_iff.1 hc
      obtain ⟨ds, hds, reached, hreached⟩ := hwalks p hp name c hname
      exact hb.not_fails_of_closure hp hname hds hreached hdeclared
  · intro hgood p hp name hname
    obtain ⟨ds, hds, hdeclared⟩ := hgood.dependenciesOf_eq_ok hb hp hname
    exact closure_eq_ok_iff.2 ⟨ds, hds, hgood.exists_closure hb.selfContained _ hdeclared⟩

/-! ### Tasks and files -/

theorem Good.edgesFrom_eq_ok (hgood : b.Good) (hb : b.Proper) (hp : p ∈ b.projects)
    (hname : name ∈ p.container.names) :
    ∃ es, b.edgesFrom p.path.render name = .ok es ∧ ∀ e ∈ es, e ∈ b.edges := by
  obtain ⟨ds, hds, hdeclared⟩ := hgood.dependenciesOf_eq_ok hb hp hname
  refine ⟨ds.filterMap Dependency.edge?, except_bind_eq_ok.2 ⟨ds, hds, rfl⟩, ?_⟩
  intro e he
  exact hdeclared e (Dependency.mem_filterMap_edge?.1 he)

theorem Good.exists_tasks (hgood : b.Good) (hb : b.Proper) (he : e ∈ b.edges) :
    ∃ ts, (b.store.dependencyTasks (.ofEdge e)).result = .ok ts := by
  have hunambiguous := hb.reachable.unambiguous hb.selfContained (hb.selfContained e he)
  cases htasks : (b.store.dependencyTasks (.ofEdge e)).result with
  | ok ts => exact ⟨ts, rfl⟩
  | error x =>
      obtain ⟨y, hreach, hfails⟩ := (Store.tasks_edges_eq_error_iff hunambiguous).1 ⟨x, htasks⟩
      have hy : y ∈ b.edges := by
        refine hb.selfContained.mem_edges_of_reach ?_ hreach
        intro z hz
        rwa [List.mem_singleton.1 hz]
      exact absurd hfails (hgood.leads y hy)

theorem Good.exists_files (hgood : b.Good) (hb : b.Proper) (he : e ∈ b.edges) (transitive : Bool) :
    ∃ files, (b.store.resolveFiles e transitive).result = .ok files := by
  obtain ⟨p, c, _, hsel, _⟩ := Store.not_fails_iff.1 (hgood.leads e he)
  have hseed : ∀ x, .project x ∈ [Dependency.project e] → x ∈ b.edges := by
    intro x hx
    cases List.mem_singleton.1 hx
    exact he
  obtain ⟨reached, hreached⟩ := hgood.exists_closure hb.selfContained transitive hseed
  exact ⟨reached.files, Reporting.bind_eq_ok.2 ⟨p, hsel.1, Reporting.bind_eq_ok.2 ⟨(), rfl,
    Reporting.bind_eq_ok.2 ⟨reached, hreached, rfl⟩⟩⟩⟩

theorem printFiles_eq_ok {es : List Edge} {transitive : Bool}
    (h : ∀ e ∈ es, ∃ files, (b.store.resolveFiles e transitive).result = .ok files) :
    (b.printFiles transitive es).result = .ok () := by
  induction es with
  | nil => rfl
  | cons e es ih =>
      obtain ⟨⟨files, hfiles⟩, hes⟩ := List.forall_mem_cons.1 h
      exact Transcript.bind_eq_ok.2 ⟨files, hfiles, Transcript.bind_eq_ok.2 ⟨(), rfl, ih hes⟩⟩

theorem Good.tasks_succeed (hgood : b.Good) (hb : b.Proper) : b.SucceedsEverywhere .tasks := by
  intro p hp name hname
  obtain ⟨es, hes, hdeclared⟩ := hgood.edgesFrom_eq_ok hb hp hname
  obtain ⟨all, hall⟩ := exists_printTasks_iff.2 fun e he => hgood.exists_tasks hb (hdeclared e he)
  exact tasks_eq_ok_iff.2 ⟨es, all, hes, hall⟩

theorem Good.files_succeed (hgood : b.Good) (hb : b.Proper) (intransitive : Bool) :
    b.SucceedsEverywhere (.files · · intransitive) := by
  intro p hp name hname
  obtain ⟨es, hes, hdeclared⟩ := hgood.edgesFrom_eq_ok hb hp hname
  exact Transcript.bind_eq_ok.2 ⟨es, hes, printFiles_eq_ok fun e he => hgood.exists_files hb (hdeclared e he) _⟩

/-! ### What `check` predicts -/

/-- For a build that was read and loaded, `check` together with all hierarchies says whether all closures are there,
and that tasks and files are. -/
theorem check_predicts_walks {text : String} {f : BuildFile} (hparse : BuildFile.parse text = .ok f) {store : Store}
    {reporter : ReporterId} (hload : f.load store reporter = .ok b) :
    ((b.carryOut .check).result = .ok () ∧ b.HasHierarchies ↔ b.SucceedsEverywhere (.closure · · false)) ∧
    ((b.carryOut .check).result = .ok () ∧ b.HasHierarchies ↔ b.SucceedsEverywhere (.closure · · true)) ∧
    ((b.carryOut .check).result = .ok () ∧ b.HasHierarchies →
      b.SucceedsEverywhere .tasks ∧ ∀ intransitive, b.SucceedsEverywhere (.files · · intransitive)) := by
  have hb : b.Proper := proper_load (BuildFile.written_of_parse hparse) hload
  have hchecked : (b.carryOut .check).result = .ok () ∧ b.HasHierarchies ↔ b.Good := hb.good_iff.symm
  refine ⟨hchecked.trans (hb.closures_iff false).symm, hchecked.trans (hb.closures_iff true).symm, ?_⟩
  intro h
  have hgood : b.Good := hchecked.1 h
  exact ⟨hgood.tasks_succeed hb, hgood.files_succeed hb⟩

/-- An application that needs a library, and needs it once more, in another way, where it has inherited that already. -/
def shopText : String :=
  "\x7b\"rootProject\": \"shop\", \"projects\": [" ++
    "\x7b\"path\": \":lib\", \"configurations\": [\x7b\"name\": \"default\"\x7d]\x7d, " ++
    "\x7b\"path\": \":app\", \"configurations\": [" ++
      "\x7b\"name\": \"compile\", \"dependencies\": [\x7b\"project\": \":lib\"\x7d]\x7d, " ++
      "\x7b\"name\": \"runtime\", \"extendsFrom\": [\"compile\"], " ++
        "\"dependencies\": [\x7b\"project\": \":lib\", \"transitive\": false\x7d]\x7d]\x7d]\x7d"

theorem check_predicts_walks_shopText :
    ∃ f b, BuildFile.parse shopText = .ok f ∧ f.load .empty ⟨0⟩ = .ok b ∧
      b.projects.map (fun p => (p.path.render, p.container.names)) =
        [(":", []), (":app", ["compile", "runtime"]), (":lib", ["default"])] ∧
      b.SucceedsEverywhere (.closure · · false) ∧ b.SucceedsEverywhere (.closure · · true) ∧
      b.SucceedsEverywhere .tasks ∧ ∀ intransitive, b.SucceedsEverywhere (.files · · intransitive) := by
  have hrun : (BuildFile.parse shopText).toOption.map (fun f => (f.load .empty ⟨0⟩).toOption.map fun b =>
      (b.projects.map (fun p => (p.path.render, p.container.names)), (b.carryOut .check).result.toOption,
        decide b.HasHierarchies)) =
      some (some ([(":", []), (":app", ["compile", "runtime"]), (":lib", ["default"])], some (), true)) := by
    decide +kernel
  obtain ⟨f, hparse, hrun⟩ := exists_eq_ok hrun
  obtain ⟨b, hload, hparts⟩ := exists_eq_ok hrun
  simp only [Prod.mk.injEq] at hparts
  obtain ⟨hnames, hcheck, hhierarchies⟩ := hparts
  have hchecked : (b.carryOut .check).result = .ok () ∧ b.HasHierarchies := by
    refine ⟨?_, of_decide_eq_true hhierarchies⟩
    cases hresult : (b.carryOut .check).result with
    | ok done => rfl
    | error x =>
        rw [hresult] at hcheck
        cases hcheck
  obtain ⟨hfull, hshallow, hrest⟩ := check_predicts_walks hparse hload
  obtain ⟨htasks, hfiles⟩ := hrest hchecked
  exact ⟨f, b, hparse, hload, hnames, hfull.1 hchecked, hshallow.1 hchecked, htasks, hfiles⟩

end Build

end ProjectGraph
