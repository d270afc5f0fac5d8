import ProjectGraph.Proofs.Build.Edges
import ProjectGraph.Proofs.TaskSet.Nodes

/-!
The tasks of edges, in terms of edges alone. `Reach` is the least set of edges that holds the given ones and all
edges below its members, as far as they build their producers. Every node that the given edges bring comes from
an edge of the reach, and every edge of the reach is brought. So the tasks of the edges are the tasks of all
artifacts that edges of the reach select, and a failure is that of an edge of the reach.

In a self-contained build the walk recognises no wrong configuration: owner and name of a selected configuration
tell which project it is of, and a project has one configuration of a name.
-/

namespace ProjectGraph

namespace Store

variable {s : Store} {es : List Edge} {e x y : Edge}

/-- The edges that are reached from `es` through edges that build their producers. -/
inductive Reach (s : Store) (es : List Edge) : Edge → Prop
  | start {e : Edge} (mem : e ∈ es) (builds : e.buildsProducer = true) : Reach s es e
  | step {x y : Edge} (before : Reach s es x) (below : .project y ∈ s.below (.project x))
      (builds : y.buildsProducer = true) : Reach s es y

/-- The edge selects nothing, or what it selects has no hierarchy. -/
def Fails (s : Store) (e : Edge) : Prop :=
  (∃ failure, (s.select e).result = .error failure) ∨
    ∃ p c failure, s.Selects e p c ∧ p.container.hierarchy c = .error failure

/-- An artifact of a configuration that an edge of the reach selects. -/
def Published (s : Store) (es : List Edge) (a : Artifact) : Prop :=
  ∃ x p c artifacts, s.Reach es x ∧ s.Selects x p c ∧ p.container.allArtifacts c = .ok artifacts ∧ a ∈ artifacts

theorem Reach.builds (h : s.Reach es x) : x.buildsProducer = true := by
  cases h with
  | start mem builds => exact builds
  | step before below builds => exact builds

/-- What several edges reach, one of them reaches. -/
theorem reach_iff : s.Reach es x ↔ ∃ e ∈ es, s.Reach [e] x := by
  constructor
  · intro h
    induction h with
    | start mem builds => exact ⟨_, mem, .start List.mem_cons_self builds⟩
    | step before below builds ih =>
        obtain ⟨e, he, hreach⟩ := ih
        exact ⟨e, he, hreach.step below builds⟩
  · rintro ⟨e, he, h⟩
    induction h with
    | start mem builds =>
        cases List.mem_singleton.1 mem
        exact .start he builds
    | step before below builds ih => exact ih.step below builds

theorem published_iff {a : Artifact} : s.Published es a ↔ ∃ e ∈ es, s.Published [e] a := by
  constructor
  · rintro ⟨x, p, c, artifacts, hreach, h⟩
    obtain ⟨e, he, hreach⟩ := reach_iff.1 hreach
    exact ⟨e, he, x, p, c, artifacts, hreach, h⟩
  · rintro ⟨e, he, x, p, c, artifacts, hreach, h⟩
    exact ⟨x, p, c, artifacts, reach_iff.2 ⟨e, he, hreach⟩, h⟩

theorem fails_iff : s.Fails e ↔ ¬ ∃ p c members, s.Selects e p c ∧ p.container.hierarchy c = .ok members := by
  constructor
  · rintro (⟨failure, hfailure⟩ | ⟨p, c, failure, hsel, hfailure⟩) ⟨p', c', members, hsel', hmembers⟩
    · rw [hsel'.2] at hfailure
      cases hfailure
    · obtain ⟨rfl, rfl⟩ := hsel.unique hsel'
      rw [hmembers] at hfailure
      cases hfailure
  · intro hnone
    cases hselect : (s.select e).result with
    | error failure => exact Or.inl ⟨failure, hselect⟩
    | ok c =>
        right
        obtain ⟨p, hsel⟩ := exists_selects_iff.2 hselect
        cases hhierarchy : p.container.hierarchy c with
        | error failure => exact ⟨p, c, failure, hsel, hhierarchy⟩
        | ok members => exact absurd ⟨p, c, members, hsel, hhierarchy⟩ hnone

theorem not_fails_iff : ¬ s.Fails e ↔ ∃ p c members, s.Selects e p c ∧ p.container.hierarchy c = .ok members := by
  rw [fails_iff, not_not]

theorem Fails.of_destination (h : s.Fails e) (heq : e.destination = x.destination) : s.Fails x := by
  rw [fails_iff] at h ⊢
  rintro ⟨p, c, members, hsel, hmembers⟩
  exact h ⟨p, c, members, hsel.of_destination heq.symm, hmembers⟩

/-! ### What nodes of edges bring -/

/-- The nodes that stand for edges. -/
def edgeSeeds (es : List Edge) : List BuildNode := es.map fun e => .dependency (.ofEdge e)

theorem edgeNodes_of_builds (h : e.buildsProducer = true) {nodes : List BuildNode} :
    (s.edgeNodes e).result = .ok nodes ↔ ∃ p c members, s.Selects e p c ∧ p.container.hierarchy c = .ok members ∧
      nodes = .configuration e.producer c ::
        (firstOccurrences (members.flatMap (·.artifacts))).map .artifact := by
  rw [edgeNodes, if_pos h]
  constructor
  · intro hnodes
    obtain ⟨p, hp, hnodes⟩ := Reporting.bind_eq_ok.1 hnodes
    obtain ⟨c, hc, hnodes⟩ := Reporting.bind_eq_ok.1 hnodes
    obtain ⟨artifacts, ha, hnodes⟩ := Reporting.bind_eq_ok.1 hnodes
    obtain ⟨members, hmembers, rfl⟩ := Container.inherited_eq_ok.1 ha
    cases hnodes
    exact ⟨p, c, members, ⟨hp, hc⟩, hmembers, rfl⟩
  · rintro ⟨p, c, members, ⟨hp, hc⟩, hmembers, rfl⟩
    have ha : p.container.allArtifacts c = .ok _ := Container.inherited_eq_ok.2 ⟨members, hmembers, rfl⟩
    refine Reporting.bind_eq_ok.2 ⟨p, hp, Reporting.bind_eq_ok.2 ⟨c, hc, ?_⟩⟩
    exact Reporting.bind_eq_ok.2 ⟨_, ha, rfl⟩

/-- A configuration brings the edges that it declares or inherits, as its project has them. -/
theorem bring_configuration {id : ProjectId} {p : Project} (hp : s.project? id = some p) (c : Configuration) :
    s.bring (.configuration id c) =
      ⟨[], (p.container.allDependencies c).map fun ds => edgeSeeds (ds.filterMap Dependency.edge?)⟩ := by
  cases hds : p.container.allDependencies c <;>
    simp [bring, edgesOf, hp, hds, Reporting.ofExcept, edgeSeeds, Except.map, bind, Except.bind, pure, Except.pure,
      Reporting.andThen, Reporting.after]

theorem bring_selected {p : Project} {c : Configuration} {members : List Configuration}
    (hsel : s.Selects e p c) (hm : p.container.hierarchy c = .ok members) :
    s.bring (.configuration e.producer c) =
      ⟨[], .ok (edgeSeeds ((s.below (.project e)).filterMap Dependency.edge?))⟩ := by
  have hds : p.container.allDependencies c = .ok _ := Container.inherited_eq_ok.2 ⟨members, hm, rfl⟩
  obtain ⟨hp, _⟩ := selects_iff.1 hsel
  rw [bring_configuration hp, hds, below_eq hsel hds]
  rfl

/-! ### From nodes to edges -/

/-- What edges have to do with a node that they bring. -/
def Explained (s : Store) (es : List Edge) : BuildNode → Prop
  | .task t => ∃ a, s.Published es a ∧ t ∈ a.builtBy
  | .artifact a => s.Published es a
  | .configuration id c => ∃ x p members, s.Reach es x ∧ x.producer = id ∧ s.Selects x p c ∧
      p.container.hierarchy c = .ok members
  | .dependency d => ∃ x, d = .ofEdge x ∧ (x.buildsProducer = true → s.Reach es x)

theorem explained {n : BuildNode} (h : Brought s (edgeSeeds es) n) : s.Explained es n := by
  induction h with
  | start mem =>
      obtain ⟨e, he, rfl⟩ := List.mem_map.1 mem
      exact ⟨e, rfl, .start he⟩
  | @step n n' brought before brings mem ih =>
      -- One case for each kind of node that may bring another one.
      cases n with
      | task t =>
          cases brings
          cases mem
      | artifact a =>
          cases brings
          obtain ⟨t, ht, rfl⟩ := List.mem_map.1 mem
          exact ⟨a, ih, ht⟩
      | configuration id c =>
          obtain ⟨x, p, members, hreach, rfl, hsel, hmembers⟩ := ih
          rw [bring_selected hsel hmembers] at brings
          cases brings
          obtain ⟨y, hy, rfl⟩ := List.mem_map.1 mem
          exact ⟨y, rfl, fun hbuilds => .step hreach (Dependency.mem_filterMap_edge?.1 hy) hbuilds⟩
      | dependency d =>
          obtain ⟨x, rfl, hx⟩ := ih
          rw [bring_edge] at brings
          by_cases hbuilds : x.buildsProducer = true
          · obtain ⟨p, c, members, hsel, hmembers, rfl⟩ := (edgeNodes_of_builds hbuilds).1 brings
            rcases List.mem_cons.1 mem with rfl | mem
            · exact ⟨x, p, members, hx hbuilds, rfl, hsel, hmembers⟩
            · obtain ⟨a, ha, rfl⟩ := List.mem_map.1 mem
              exact ⟨x, p, c, _, hx hbuilds, hsel, Container.inherited_eq_ok.2 ⟨members, hmembers, rfl⟩, ha⟩
          · rw [edgeNodes, if_neg hbuilds] at brings
            cases brings
            cases mem

/-! ### From edges to nodes -/

theorem Reach.brings (h : s.Reach es x) {p : Project} {c : Configuration} {members : List Configuration}
    (hsel : s.Selects x p c) (hm : p.container.hierarchy c = .ok members) :
    (s.bring (.dependency (.ofEdge x))).result = .ok (.configuration x.producer c ::
      (firstOccurrences (members.flatMap (·.artifacts))).map .artifact) := by
  rw [bring_edge]
  exact (edgeNodes_of_builds h.builds).2 ⟨p, c, members, hsel, hm, rfl⟩

theorem Reach.brought (h : s.Reach es x) : Brought s (edgeSeeds es) (.dependency (.ofEdge x)) := by
  induction h with
  | start mem builds => exact .start (List.mem_map_of_mem mem)
  | @step x y before below builds ih =>
      obtain ⟨p, c, ds, hsel, hds, hy⟩ := mem_below.1 below
      obtain ⟨members, hmembers, _⟩ := Container.inherited_eq_ok.1 hds
      have hconfiguration : Brought s (edgeSeeds es) (.configuration x.producer c) :=
        .step ih (before.brings hsel hmembers) List.mem_cons_self
      refine .step hconfiguration (congrArg Reporting.result (bring_selected hsel hmembers)) ?_
      exact List.mem_map_of_mem (Dependency.mem_filterMap_edge?.2 below)

theorem Published.brought {a : Artifact} (h : s.Published es a) : Brought s (edgeSeeds es) (.artifact a) := by
  obtain ⟨x, p, c, artifacts, hreach, hsel, hartifacts, ha⟩ := h
  obtain ⟨members, hmembers, rfl⟩ := Container.inherited_eq_ok.1 hartifacts
  exact .step hreach.brought (hreach.brings hsel hmembers) (List.mem_cons_of_mem _ (List.mem_map_of_mem ha))

theorem brought_task_iff {t : TaskPath} :
    Brought s (edgeSeeds es) (.task t) ↔ ∃ a, s.Published es a ∧ t ∈ a.builtBy := by
  constructor
  · exact explained
  · rintro ⟨a, ha, ht⟩
    exact .step ha.brought rfl (List.mem_map_of_mem ht)

/-- What is brought fails exactly if an edge of the reach does. -/
theorem exists_fails_iff :
    (∃ n, Brought s (edgeSeeds es) n ∧ ∃ failure, (s.bring n).result = .error failure) ↔
      ∃ x, s.Reach es x ∧ s.Fails x := by
  constructor
  · rintro ⟨n, hn, failure, hfailure⟩
    have hexplained := explained hn
    cases n with
    | task t => cases hfailure
    | artifact a => cases hfailure
    | configuration id c =>
        -- The hierarchy was there when the edge was looked up.
        obtain ⟨x, p, members, _, rfl, hsel, hmembers⟩ := hexplained
        rw [bring_selected hsel hmembers] at hfailure
        cases hfailure
    | dependency d =>
        obtain ⟨x, rfl, hx⟩ := hexplained
        rw [bring_edge] at hfailure
        by_cases hbuilds : x.buildsProducer = true
        · refine ⟨x, hx hbuilds, fails_iff.2 ?_⟩
          rintro ⟨p, c, members, hsel, hmembers⟩
          rw [(edgeNodes_of_builds hbuilds).2 ⟨p, c, members, hsel, hmembers, rfl⟩] at hfailure
          cases hfailure
        · rw [edgeNodes, if_neg hbuilds] at hfailure
          cases hfailure
  · rintro ⟨x, hreach, hfails⟩
    refine ⟨_, hreach.brought, ?_⟩
    rw [bring_edge]
    cases hnodes : (s.edgeNodes x).result with
    | error failure => exact ⟨failure, rfl⟩
    | ok nodes =>
        obtain ⟨p, c, members, hsel, hmembers, _⟩ := (edgeNodes_of_builds hreach.builds).1 hnodes
        exact absurd ⟨p, c, members, hsel, hmembers⟩ (fails_iff.1 hfails)

/-! ### What comes out -/

theorem tasks_edges_eq_error_iff (hu : s.Unambiguous (edgeSeeds es)) :
    (∃ failure, (s.tasks (edgeSeeds es)).result = .error failure) ↔ ∃ x, s.Reach es x ∧ s.Fails x := by
  rw [tasks_eq_error_iff hu, exists_fails_iff]

theorem tasks_edges_eq_ok (hu : s.Unambiguous (edgeSeeds es)) {ts : List TaskPath}
    (h : (s.tasks (edgeSeeds es)).result = .ok ts) :
    ts.Pairwise (fun t t' => compare t t' = .lt) ∧ ∀ t, t ∈ ts ↔ ∃ a, s.Published es a ∧ t ∈ a.builtBy := by
  obtain ⟨_, hordered, hmem⟩ := tasks_eq_ok hu h
  exact ⟨hordered, fun t => (hmem t).trans brought_task_iff⟩

end Store

namespace Build

variable {b : Build} {es : List Edge} {x : Edge}

theorem SelfContained.into_of_reach (hb : b.SelfContained) (hes : ∀ e ∈ es, e.Into b) (h : b.store.Reach es x) :
    x.Into b := by
  induction h with
  | start mem builds => exact hes _ mem
  | step before below builds ih => exact hb.into_of_mem_below ih below

theorem SelfContained.mem_edges_of_reach (hb : b.SelfContained) (hes : ∀ e ∈ es, e ∈ b.edges)
    (h : b.store.Reach es x) : x ∈ b.edges := by
  cases h with
  | start mem builds => exact hes x mem
  | step before below builds =>
      exact mem_edges_of_mem_below (hb.into_of_reach (fun e he => hb e (hes e he)) before) below

/-- Owner and name tell apart what is brought if all of it is registered. -/
theorem Coherent.unambiguous_of_registers (hc : b.Coherent) {nodes : List BuildNode}
    (h : ∀ id c, Store.Brought b.store nodes (.configuration id c) → ∃ path name p, b.Registers path name id p c) :
    b.store.Unambiguous nodes := by
  intro id c id' c' hbrought hbrought' hkey
  obtain ⟨path, name, p, hr⟩ := h id c hbrought
  obtain ⟨path', name', p', hr'⟩ := h id' c' hbrought'
  obtain ⟨howner, hname⟩ := Prod.mk.inj hkey
  exact hc.registers_unique hr hr' howner hname

/-- Edges into a self-contained build bring registered configurations only. -/
theorem SelfContained.registers_of_brought (hb : b.SelfContained) (hes : ∀ e ∈ es, e.Into b) {id : ProjectId}
    {c : Configuration} (h : Store.Brought b.store (Store.edgeSeeds es) (.configuration id c)) :
    ∃ path name p, b.Registers path name id p c := by
  obtain ⟨x, p, _, hreach, rfl, hsel, _⟩ := Store.explained h
  exact ⟨x.path, x.target, p, registers_of_selects (hb.into_of_reach hes hreach) hsel⟩

theorem Coherent.unambiguous (hc : b.Coherent) (hb : b.SelfContained) (hes : ∀ e ∈ es, e.Into b) :
    b.store.Unambiguous (Store.edgeSeeds es) :=
  hc.unambiguous_of_registers fun _ _ => hb.registers_of_brought hes

theorem Reachable.unambiguous (hb : b.Reachable) (hself : b.SelfContained) {e : Edge} (he : e.Into b) :
    b.store.Unambiguous (Store.edgeSeeds [e]) := by
  refine hb.coherent.unambiguous hself ?_
  intro x hx
  rwa [List.mem_singleton.1 hx]

end Build

end ProjectGraph
