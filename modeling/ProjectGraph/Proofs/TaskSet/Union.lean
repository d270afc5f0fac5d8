import ProjectGraph.Proofs.Loops
import ProjectGraph.Proofs.OrderedLists
import ProjectGraph.Proofs.TaskSet.Reachability

/-!
The tasks of several edges at once. Tasks of edges are unions by their nature: what several edges reach, one of them
reaches (`reach_iff`). So in a self-contained build one walk over all of the edges gives the tasks that separate walks
give, in order and each once, and it fails exactly if one of these fails. What the walk recognises on the way takes
nothing away from the later edges, as it belongs to what was reached already.

A configuration of the build stands for its edges. That the walk recognises it when an edge leads back makes no
difference either, as the configuration brings the same edges once more.
-/

namespace ProjectGraph

namespace Store

/-- The result is the union of the tasks of the edges, in order and each once, and a failure exactly if the tasks of
one of them are. -/
structure Unites (s : Store) (r : Except BuildError (List TaskPath)) (es : List Edge) : Prop where
  error_iff : (∃ x, r = .error x) ↔ ∃ e ∈ es, ∃ x, (s.dependencyTasks (.ofEdge e)).result = .error x
  ordered : ∀ ts, r = .ok ts → ts.Pairwise fun t t' => compare t t' = .lt
  mem_iff : ∀ ts, r = .ok ts → ∀ t, t ∈ ts ↔
    ∃ e ∈ es, ∃ own, (s.dependencyTasks (.ofEdge e)).result = .ok own ∧ t ∈ own

namespace Unites

variable {s : Store} {r r' : Except BuildError (List TaskPath)} {es es' : List Edge}

/-- There is but one union. -/
theorem eq_ok (h : s.Unites r es) (h' : s.Unites r' es) {ts : List TaskPath} (hts : r = .ok ts) : r' = .ok ts := by
  obtain ⟨ts', hts'⟩ := exists_ok_of_error (fun x hx => h.error_iff.2 (h'.error_iff.1 ⟨x, hx⟩)) hts
  have hmem : ∀ t, t ∈ ts' ↔ t ∈ ts := fun t => (h'.mem_iff ts' hts' t).trans (h.mem_iff ts hts t).symm
  rw [hts', eq_of_ordered (h'.ordered ts' hts') (h.ordered ts hts) hmem]

theorem eq_ok_iff (h : s.Unites r es) (h' : s.Unites r' es) {ts : List TaskPath} : r = .ok ts ↔ r' = .ok ts :=
  ⟨h.eq_ok h', h'.eq_ok h⟩

/-- The order of the edges does not matter. -/
theorem perm (h : s.Unites r es) (hperm : es.Perm es') : s.Unites r es' where
  error_iff := h.error_iff.trans (exists_congr fun _ => and_congr_left' hperm.mem_iff)
  ordered := h.ordered
  mem_iff := fun ts hts t => (h.mem_iff ts hts t).trans (exists_congr fun _ => and_congr_left' hperm.mem_iff)

end Unites

/-- One walk over edges unites what walks over each of them find. -/
theorem unites_edges {s : Store} {es : List Edge} (hu : s.Unambiguous (edgeSeeds es))
    (hown : ∀ e ∈ es, s.Unambiguous (edgeSeeds [e])) : s.Unites (s.tasks (edgeSeeds es)).result es := by
  have herror : (∃ x, (s.tasks (edgeSeeds es)).result = .error x) ↔
      ∃ e ∈ es, ∃ x, (s.dependencyTasks (.ofEdge e)).result = .error x := by
    rw [tasks_edges_eq_error_iff hu]
    constructor
    · rintro ⟨y, hy, hfails⟩
      obtain ⟨e, he, hreach⟩ := reach_iff.1 hy
      exact ⟨e, he, (tasks_edges_eq_error_iff (hown e he)).2 ⟨y, hreach, hfails⟩⟩
    · rintro ⟨e, he, hfailure⟩
      obtain ⟨y, hreach, hfails⟩ := (tasks_edges_eq_error_iff (hown e he)).1 hfailure
      exact ⟨y, reach_iff.2 ⟨e, he, hreach⟩, hfails⟩
  refine ⟨herror, fun ts hts => (tasks_edges_eq_ok hu hts).1, ?_⟩
  intro ts hts t
  rw [(tasks_edges_eq_ok hu hts).2]
  constructor
  · rintro ⟨a, ha, ht⟩
    obtain ⟨e, he, ha⟩ := published_iff.1 ha
    -- As the walk as a whole has not failed, that over the edge alone has not either.
    obtain ⟨own, htasks⟩ := exists_ok_of_error (fun x hx => herror.2 ⟨e, he, x, hx⟩) hts
    exact ⟨e, he, own, htasks, ((tasks_edges_eq_ok (hown e he) htasks).2 t).2 ⟨a, ha, ht⟩⟩
  · rintro ⟨e, he, own, htasks, ht⟩
    obtain ⟨a, ha, ht⟩ := ((tasks_edges_eq_ok (hown e he) htasks).2 t).1 ht
    exact ⟨a, published_iff.2 ⟨e, he, ha⟩, ht⟩

/-- A node whose own nodes are found finds no tasks but theirs, unless it is a task itself. -/
theorem Unites.of_bring {s : Store} {n : BuildNode} {es : List Edge} (hu : s.Unambiguous [n])
    (hown : s.Unambiguous (edgeSeeds es)) (hbring : (s.bring n).result = .ok (edgeSeeds es))
    (hn : ∀ t, n ≠ .task t) (h : s.Unites (s.tasks (edgeSeeds es)).result es) :
    s.Unites (s.tasks [n]).result es := by
  have hsame : ∀ t, Brought s [n] (.task t) ↔ Brought s (edgeSeeds es) (.task t) := by
    intro t
    rw [brought_singleton hbring]
    exact or_iff_right fun ht => hn t ht.symm
  have herror : (∃ x, (s.tasks [n]).result = .error x) ↔ ∃ x, (s.tasks (edgeSeeds es)).result = .error x := by
    rw [tasks_eq_error_iff hu, tasks_eq_error_iff hown]
    constructor
    · rintro ⟨m, hm, x, hx⟩
      rcases (brought_singleton hbring).1 hm with rfl | hm
      · rw [hbring] at hx
        cases hx
      · exact ⟨m, hm, x, hx⟩
    · rintro ⟨m, hm, hx⟩
      exact ⟨m, (brought_singleton hbring).2 (Or.inr hm), hx⟩
  refine ⟨herror.trans h.error_iff, fun ts hts => (tasks_eq_ok hu hts).2.1, ?_⟩
  intro ts hts t
  obtain ⟨ts', hts'⟩ := exists_ok_of_error (fun x hx => herror.2 ⟨x, hx⟩) hts
  obtain ⟨_, _, hmem⟩ := tasks_eq_ok hu hts
  obtain ⟨_, _, hmem'⟩ := tasks_eq_ok hown hts'
  rw [hmem, hsame, ← hmem', h.mem_iff ts' hts']

end Store

namespace Build

variable {b : Build} {path : ProjectPath} {name : String} {id : ProjectId} {p : Project} {c : Configuration}

theorem Reachable.unites_edges (hb : b.Reachable) (hself : b.SelfContained) {es : List Edge}
    (hes : ∀ e ∈ es, e.Into b) : b.store.Unites (b.store.tasks (Store.edgeSeeds es)).result es :=
  Store.unites_edges (hb.coherent.unambiguous hself hes) fun e he => hb.unambiguous hself (hes e he)

/-- Walking from a registered configuration fails as it does itself, if it has no edges to go on from. -/
theorem Registers.tasks_eq_error (hr : b.Registers path name id p c) {x : BuildError}
    (h : p.container.allDependencies c = .error x) :
    (b.store.tasks [.configuration id c]).result = .error x := by
  have hbring : b.store.bring (.configuration id c) = ⟨[], .error x⟩ := by
    rw [Store.bring_configuration hr.live, h]
    rfl
  obtain ⟨outcome, hdrains, htasks⟩ := b.store.tasks_drains [.configuration id c]
  rw [htasks, hdrains.unique (.fails (Store.taskStep_fails rfl hbring))]
  rfl

/-- Walking from a registered configuration is walking from the edges that it declares or inherits. -/
theorem Reachable.unites_configuration (hb : b.Reachable) (hself : b.SelfContained)
    (hr : b.Registers path name id p c) {ds : List Dependency} (hds : p.container.allDependencies c = .ok ds) :
    b.store.Unites (b.store.tasks [.configuration id c]).result (ds.filterMap Dependency.edge?) := by
  have hes : ∀ e ∈ ds.filterMap Dependency.edge?, e.Into b := by
    intro e he
    exact hself e (hr.mem_edges hds (Dependency.mem_filterMap_edge?.1 he))
  have hbring : (b.store.bring (.configuration id c)).result =
      .ok (Store.edgeSeeds (ds.filterMap Dependency.edge?)) := by
    rw [Store.bring_configuration hr.live, hds]
    rfl
  have hu : b.store.Unambiguous [.configuration id c] := by
    refine hb.coherent.unambiguous_of_registers ?_
    intro id' c' hbrought
    rcases (Store.brought_singleton hbring).1 hbrought with heq | hbrought
    · cases heq
      exact ⟨path, name, p, hr⟩
    · exact hself.registers_of_brought hes hbrought
  have hn : ∀ t, BuildNode.configuration id c ≠ .task t := by
    intro t ht
    cases ht
  exact .of_bring hu (hb.coherent.unambiguous hself hes) hbring hn (hb.unites_edges hself hes)

end Build

end ProjectGraph
