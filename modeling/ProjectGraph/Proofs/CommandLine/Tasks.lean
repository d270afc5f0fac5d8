import ProjectGraph.CommandLine.Commands
import ProjectGraph.Proofs.Loops
import ProjectGraph.Proofs.TaskSet.Union

/-!
What the `tasks` command counts. It asks for the tasks of each edge of a configuration in turn, prints them, and counts
all of them together, each once. That is the union of separate walks, so a single walk from the configuration finds the
very tasks that are counted, and fails exactly if the command does.
-/

namespace ProjectGraph

namespace Build

variable {b : Build} {path : ProjectPath} {project name : String} {id : ProjectId} {p : Project} {c : Configuration}
  {e : Edge} {es : List Edge} {all : List TaskPath}

/-! ### Edge by edge -/

/-- Printing the lines in between never fails. -/
theorem printTasks_cons_eq_ok : (b.printTasks (e :: es)).result = .ok all ↔
    ∃ own more, (b.store.dependencyTasks (.ofEdge e)).result = .ok own ∧ (b.printTasks es).result = .ok more ∧
      own ++ more = all := by
  constructor
  · intro h
    obtain ⟨own, hown, h⟩ := Transcript.bind_eq_ok.1 h
    obtain ⟨_, _, h⟩ := Transcript.bind_eq_ok.1 h
    obtain ⟨_, _, h⟩ := Transcript.bind_eq_ok.1 h
    obtain ⟨more, hmore, h⟩ := Transcript.bind_eq_ok.1 h
    cases h
    exact ⟨own, more, hown, hmore, rfl⟩
  · rintro ⟨own, more, hown, hmore, rfl⟩
    refine Transcript.bind_eq_ok.2 ⟨own, hown, Transcript.bind_eq_ok.2 ⟨(), rfl, ?_⟩⟩
    exact Transcript.bind_eq_ok.2 ⟨(), rfl, Transcript.bind_eq_ok.2 ⟨more, hmore, rfl⟩⟩

theorem exists_printTasks_iff : (∃ all, (b.printTasks es).result = .ok all) ↔
    ∀ e ∈ es, ∃ own, (b.store.dependencyTasks (.ofEdge e)).result = .ok own := by
  induction es with
  | nil => exact iff_of_true ⟨[], rfl⟩ (by simp)
  | cons e es ih =>
      rw [List.forall_mem_cons, ← ih]
      constructor
      · rintro ⟨all, h⟩
        obtain ⟨own, more, hown, hmore, _⟩ := printTasks_cons_eq_ok.1 h
        exact ⟨⟨own, hown⟩, more, hmore⟩
      · rintro ⟨⟨own, hown⟩, more, hmore⟩
        exact ⟨own ++ more, printTasks_cons_eq_ok.2 ⟨own, more, hown, hmore, rfl⟩⟩

theorem mem_printTasks (h : (b.printTasks es).result = .ok all) {t : TaskPath} :
    t ∈ all ↔ ∃ e ∈ es, ∃ own, (b.store.dependencyTasks (.ofEdge e)).result = .ok own ∧ t ∈ own := by
  induction es generalizing all with
  | nil =>
      cases h
      simp
  | cons e es ih =>
      obtain ⟨own, more, hown, hmore, rfl⟩ := printTasks_cons_eq_ok.1 h
      simp only [List.mem_append, ih hmore, List.exists_mem_cons_iff, hown, Except.ok.injEq, exists_eq_left']

/-- What the command counts is the union of what it prints for the edges. -/
theorem unites_printTasks (b : Build) (es : List Edge) :
    b.store.Unites ((b.printTasks es).result.map fun all => (Std.TreeSet.ofList all).toList) es where
  error_iff := by
    have hnone : (∃ x, ((b.printTasks es).result.map fun all => (Std.TreeSet.ofList all).toList) = .error x) ↔
        ¬ ∃ all, (b.printTasks es).result = .ok all := by
      cases (b.printTasks es).result <;> simp [Except.map]
    rw [hnone, exists_printTasks_iff]
    push Not
    refine exists_congr fun e => and_congr_right fun _ => ?_
    cases (b.store.dependencyTasks (.ofEdge e)).result <;> simp
  ordered := by
    intro ts hts
    obtain ⟨all, _, rfl⟩ := except_map_eq_ok.1 hts
    exact Std.TreeSet.ordered_toList
  mem_iff := by
    intro ts hts t
    obtain ⟨all, hall, rfl⟩ := except_map_eq_ok.1 hts
    rw [Std.TreeSet.mem_toList, Std.TreeSet.mem_ofList, List.contains_iff_mem, mem_printTasks hall]

/-! ### The command -/

theorem Registers.dependenciesOf_eq (hr : b.Registers path name id p c)
    (hproject : ProjectPath.parse project = .ok path) :
    b.dependenciesOf project name = p.container.allDependencies c := by
  have hfind : p.container.find name = .ok c := Container.find_eq_ok.2 hr.found
  simp [dependenciesOf, locate, find, hproject, hr.placed, hr.live, hfind, bind, Except.bind, pure, Except.pure]

theorem tasks_eq_ok_iff : (b.tasks project name).result = .ok () ↔
    ∃ es all, b.edgesFrom project name = .ok es ∧ (b.printTasks es).result = .ok all := by
  constructor
  · intro h
    obtain ⟨es, hes, h⟩ := Transcript.bind_eq_ok.1 h
    obtain ⟨all, hall, _⟩ := Transcript.bind_eq_ok.1 h
    exact ⟨es, all, hes, hall⟩
  · rintro ⟨es, all, hes, hall⟩
    exact Transcript.bind_eq_ok.2 ⟨es, hes, Transcript.bind_eq_ok.2 ⟨all, hall, rfl⟩⟩

theorem last_line_of_tasks (hes : b.edgesFrom project name = .ok es) (hall : (b.printTasks es).result = .ok all) :
    (b.tasks project name).lines.getLast? =
      some ("==> " ++ toString (Std.TreeSet.ofList all).toList.length ++ " task(s) must run first") := by
  have hlines : (b.tasks project name).lines = (b.printTasks es).lines ++
      ["==> " ++ toString (Std.TreeSet.ofList all).size ++ " task(s) must run first"] := by
    unfold tasks
    refine (Transcript.lines_bind hes).trans ?_
    exact Transcript.lines_bind hall
  rw [hlines, List.getLast?_concat, Std.TreeSet.length_toList]

/-! ### One walk for all -/

/-- A walk from a registered configuration finds the tasks that the command counts. -/
theorem Reachable.tasks_configuration_eq_ok (hb : b.Reachable) (hself : b.SelfContained)
    (hr : b.Registers path name id p c) (hproject : ProjectPath.parse project = .ok path) {ts : List TaskPath} :
    (b.store.tasks [.configuration id c]).result = .ok ts ↔
      ∃ es all, b.edgesFrom project name = .ok es ∧ (b.printTasks es).result = .ok all ∧
        (Std.TreeSet.ofList all).toList = ts := by
  unfold edgesFrom
  rw [hr.dependenciesOf_eq hproject]
  cases hds : p.container.allDependencies c with
  | error x =>
      rw [hr.tasks_eq_error hds]
      refine iff_of_false (by simp) ?_
      rintro ⟨es, all, hes, _⟩
      cases hes
  | ok ds =>
      -- Both are the union for the same edges.
      rw [(hb.unites_configuration hself hr hds).eq_ok_iff (b.unites_printTasks _), except_map_eq_ok]
      constructor
      · rintro ⟨all, hall, hts⟩
        exact ⟨_, all, rfl, hall, hts⟩
      · rintro ⟨es, all, hes, hall, hts⟩
        cases hes
        exact ⟨all, hall, hts⟩

/-- A walk over several edges into a self-contained build, in whatever order, unites the tasks of each of them, and so
does a walk from a registered configuration for the edges that this one declares or inherits. The command finds the
same tasks edge by edge: it succeeds exactly if the walk does, and ends with the number of tasks that the walk finds. -/
theorem shared_walk_unites (hb : b.Reachable) (hself : b.SelfContained) :
    (∀ es es' : List Edge, (∀ e ∈ es, e.Into b) → es'.Perm es →
      b.store.Unites (b.store.tasks (Store.edgeSeeds es')).result es) ∧
    ∀ path name id p c, b.Registers path name id p c →
      (∀ x, p.container.allDependencies c = .error x → (b.store.tasks [.configuration id c]).result = .error x) ∧
      (∀ ds, p.container.allDependencies c = .ok ds →
        b.store.Unites (b.store.tasks [.configuration id c]).result (ds.filterMap Dependency.edge?)) ∧
      ∀ project, ProjectPath.parse project = .ok path →
        (∀ ts, (b.store.tasks [.configuration id c]).result = .ok ts ↔
          ∃ es all, b.edgesFrom project name = .ok es ∧ (b.printTasks es).result = .ok all ∧
            (Std.TreeSet.ofList all).toList = ts) ∧
        ((b.carryOut (.tasks project name)).result = .ok () ↔
          ∃ ts, (b.store.tasks [.configuration id c]).result = .ok ts) ∧
        ∀ ts, (b.store.tasks [.configuration id c]).result = .ok ts →
          (b.carryOut (.tasks project name)).lines.getLast? =
            some ("==> " ++ toString ts.length ++ " task(s) must run first") := by
  constructor
  · intro es es' hes hperm
    have hes' : ∀ e ∈ es', e.Into b := fun e he => hes e (hperm.mem_iff.1 he)
    exact (hb.unites_edges hself hes').perm hperm
  · intro path name id p c hr
    refine ⟨fun x => hr.tasks_eq_error, fun ds => hb.unites_configuration hself hr, ?_⟩
    intro project hproject
    refine ⟨fun ts => hb.tasks_configuration_eq_ok hself hr hproject, ?_, ?_⟩
    · refine tasks_eq_ok_iff.trans ?_
      constructor
      · rintro ⟨es, all, hes, hall⟩
        exact ⟨_, (hb.tasks_configuration_eq_ok hself hr hproject).2 ⟨es, all, hes, hall, rfl⟩⟩
      · rintro ⟨ts, hts⟩
        obtain ⟨es, all, hes, hall, _⟩ := (hb.tasks_configuration_eq_ok hself hr hproject).1 hts
        exact ⟨es, all, hes, hall⟩
    · intro ts hts
      obtain ⟨es, all, hes, hall, rfl⟩ := (hb.tasks_configuration_eq_ok hself hr hproject).1 hts
      exact last_line_of_tasks hes hall

/-- The walk from the application comes back to it by way of the library, and so finds the task of its own jar. -/
theorem shared_walk_unites_shop :
    shop.store.Unites (shop.store.tasks (Store.edgeSeeds [offerOf 1 "lib", offerOf 2 "app"])).result
      [offerOf 2 "app", offerOf 1 "lib"] ∧
    ∃ p c, shop.Registers ⟨["app"]⟩ "default" ⟨2⟩ p c ∧
      (shop.store.tasks [.configuration ⟨2⟩ c]).result = .ok [⟨⟨["app"]⟩, "jar"⟩, ⟨⟨["lib"]⟩, "jar"⟩] ∧
      (shop.carryOut (.tasks ":app" "default")).lines.getLast? = some "==> 2 task(s) must run first" := by
  obtain ⟨hedges, hconfigurations⟩ := shared_walk_unites shop_reachable shop_selfContained
  constructor
  · exact hedges _ _ (by decide +kernel) (.swap _ _ _)
  · have happ : (do
        let p ← shop.store.project? ⟨2⟩
        let c ← p.container.find? "default"
        (shop.store.tasks [.configuration ⟨2⟩ c]).result.toOption.map id) =
          some [⟨⟨["app"]⟩, "jar"⟩, ⟨⟨["lib"]⟩, "jar"⟩] := by
      decide +kernel
    simp only [Option.bind_eq_bind, Option.bind_eq_some_iff] at happ
    obtain ⟨p, hp, c, hc, htasks⟩ := happ
    obtain ⟨ts, hok, rfl⟩ := exists_eq_ok htasks
    have hr : shop.Registers ⟨["app"]⟩ "default" ⟨2⟩ p c := ⟨by decide +kernel, hp, hc⟩
    obtain ⟨_, _, hcommand⟩ := hconfigurations _ _ _ p c hr
    obtain ⟨_, _, hline⟩ := hcommand ":app" (by decide +kernel)
    exact ⟨p, c, hr, hok, hline _ hok⟩

end Build

end ProjectGraph
