import ProjectGraph.Proofs.TaskSet.Walk

/-!
What the walk over build nodes does not look at: whether dependencies are transitive, and what they exclude.
`plain` sets both to what they are if nothing is said. It commutes with all that the walk does, from looking up
a configuration to what a node brings, so the walk goes in step over a store and over the plain one.
-/

namespace ProjectGraph

/-! ### Plain stores -/

def Request.plain (r : Request) : Request := { r with transitive := true, excludes := [] }

def Edge.plain (e : Edge) : Edge := { e with request := e.request.plain }

def Dependency.plain : Dependency → Dependency
  | .module m => .module { m with request := m.request.plain }
  | .project e => .project e.plain

def Configuration.plain (c : Configuration) : Configuration :=
  { c with dependencies := c.dependencies.map Dependency.plain }

def Container.plain (k : Container) : Container := { k with entries := k.entries.map fun _ c => c.plain }

def Project.plain (p : Project) : Project := { p with container := p.container.plain }

/-- The store without transitive flags and exclude rules. -/
def Store.plain (s : Store) : Store := { s with projects := s.projects.map (Option.map Project.plain) }

mutual

def BuildNode.plain : BuildNode → BuildNode
  | .task t => .task t
  | .artifact a => .artifact a
  | .configuration p c => .configuration p c.plain
  | .dependency d => .dependency d.plain

def TaskDependency.plain : TaskDependency → TaskDependency
  | .ofEdge e => .ofEdge e.plain
  | .listing nodes failure => .listing (BuildNode.allPlain nodes) failure

def BuildNode.allPlain : List BuildNode → List BuildNode
  | [] => []
  | n :: ns => n.plain :: BuildNode.allPlain ns

end

theorem BuildNode.allPlain_eq (nodes : List BuildNode) : BuildNode.allPlain nodes = nodes.map BuildNode.plain := by
  induction nodes with
  | nil => rfl
  | cons n ns ih => rw [BuildNode.allPlain, ih, List.map_cons]

/-! ### Lists without repetition -/

theorem appendNew_map {α β : Type} [BEq α] [BEq β] {f : α → β} (h : ∀ x y, (f x == f y) = (x == y))
    (kept items : List α) : appendNew (kept.map f) (items.map f) = (appendNew kept items).map f := by
  induction items generalizing kept with
  | nil => rfl
  | cons x xs ih =>
      have hcontains : (kept.map f).contains (f x) = kept.contains x := by
        induction kept with
        | nil => rfl
        | cons y ys ih => rw [List.map_cons, List.contains_cons, List.contains_cons, ih, h]
      rw [List.map_cons, appendNew_cons, appendNew_cons, hcontains, ← ih]
      split
      · rfl
      · rw [List.map_append, List.map_singleton]

/-- The edges among the first occurrences are the first occurrences among the edges. -/
theorem filterMap_edge?_appendNew (kept ds : List Dependency) :
    (appendNew kept ds).filterMap Dependency.edge? =
      appendNew (kept.filterMap Dependency.edge?) (ds.filterMap Dependency.edge?) := by
  induction ds generalizing kept with
  | nil => rfl
  | cons d ds ih =>
      rw [appendNew_cons, ih]
      cases d with
      | module m =>
          have hskip : (Dependency.module m :: ds).filterMap Dependency.edge? = ds.filterMap Dependency.edge? := rfl
          rw [hskip]
          split
          · rfl
          · rw [List.filterMap_append]
            exact congrArg (appendNew · _) (List.append_nil _)
      | project e =>
          have hcontains : (kept.filterMap Dependency.edge?).contains e = kept.contains (.project e) := by
            induction kept with
            | nil => rfl
            | cons d kept ih =>
                cases d with
                | module m =>
                    rw [List.contains_cons, Dependency.project_beq_module, Bool.false_or, ← ih]
                    rfl
                | project x =>
                    rw [List.contains_cons, Dependency.project_beq_project, ← ih]
                    exact List.contains_cons
          have hcons : (Dependency.project e :: ds).filterMap Dependency.edge? =
              e :: ds.filterMap Dependency.edge? := rfl
          rw [hcons, appendNew_cons, hcontains]
          split
          · rfl
          · rw [List.filterMap_append]
            rfl

/-! ### Looking up -/

namespace Container

variable {k : Container} {c : Configuration}

theorem find_plain (k : Container) (name : String) : k.plain.find name = (k.find name).map Configuration.plain := by
  have hfind : k.plain.find? name = (k.find? name).map Configuration.plain := by
    simp [find?, plain]
  rw [find, find, hfind]
  cases k.find? name <;> rfl

end Container

/-- The same configurations, without flags and rules. -/
def Entered.plain (e : Entered) : Entered :=
  ⟨e.backwards.map Configuration.plain, e.names, fun name => by
    rw [e.contains_names, List.any_map]
    rfl⟩

namespace Container

theorem climb_plain (k : Container) (visiting : List String) (entered : Entered) (parents : List String) :
    k.plain.climb visiting entered.plain parents =
      (k.climb visiting entered parents).map Entered.plain := by
  fun_induction climb k visiting entered parents with
  | case1 visiting entered =>
      rw [climb]
      rfl
  | case2 visiting entered parent parents x hfound =>
      rw [climb_cons, find_plain, hfound]
      rfl
  | case3 visiting entered parent parents c hfound hcycle =>
      rw [climb_cons, find_plain, hfound]
      exact if_pos hcycle
  | case4 visiting entered parent parents c hfound hnew hold ih =>
      rw [climb_cons, find_plain, hfound, ← ih]
      exact (if_neg hnew).trans (if_pos hold)
  | case5 visiting entered parent parents c hfound hnew hnot x hinner ih =>
      rw [climb_cons, find_plain, hfound]
      refine (if_neg hnew).trans ((if_neg hnot).trans ?_)
      rw [hinner] at ih
      show (do
        let entered ← k.plain.climb (c.name :: visiting) (entered.add c).plain c.extendsFrom
        k.plain.climb visiting entered parents) = _
      rw [ih]
      rfl
  | case6 visiting entered parent parents c hfound hnew hnot inner hinner ih₁ ih₂ =>
      rw [climb_cons, find_plain, hfound]
      refine (if_neg hnew).trans ((if_neg hnot).trans ?_)
      rw [hinner] at ih₁
      show (do
        let entered ← k.plain.climb (c.name :: visiting) (entered.add c).plain c.extendsFrom
        k.plain.climb visiting entered parents) = _
      rw [ih₁]
      exact ih₂

theorem hierarchy_plain (k : Container) (c : Configuration) :
    k.plain.hierarchy c.plain = (k.hierarchy c).map (·.map Configuration.plain) := by
  have hstart : Entered.start c.plain = (Entered.start c).plain := rfl
  rw [hierarchy, hierarchy, hstart]
  show (k.plain.climb [c.name] (Entered.start c).plain c.extendsFrom).map Entered.toList = _
  rw [climb_plain]
  cases k.climb [c.name] (.start c) c.extendsFrom with
  | error x => rfl
  | ok entered => simp [Except.map, Entered.plain, Entered.toList]

theorem allArtifacts_plain (k : Container) (c : Configuration) :
    k.plain.allArtifacts c.plain = k.allArtifacts c := by
  unfold allArtifacts inherited
  rw [hierarchy_plain]
  cases k.hierarchy c with
  | error x => rfl
  | ok members =>
      have hsame : (members.map Configuration.plain).flatMap (·.artifacts) = members.flatMap (·.artifacts) := by
        rw [List.flatMap_map]
        rfl
      simp only [Except.map, bind, Except.bind, hsame]

/-- The edges that a configuration declares or inherits are the same, without flags and rules. -/
theorem edges_plain (k : Container) (c : Configuration) :
    (k.plain.allDependencies c.plain).map (·.filterMap Dependency.edge?) =
      (k.allDependencies c).map fun ds => (ds.filterMap Dependency.edge?).map Edge.plain := by
  unfold allDependencies inherited
  rw [hierarchy_plain]
  cases k.hierarchy c with
  | error x => rfl
  | ok members =>
      have hedges : ((members.map Configuration.plain).flatMap (·.dependencies)).filterMap Dependency.edge? =
          ((members.flatMap (·.dependencies)).filterMap Dependency.edge?).map Edge.plain := by
        rw [List.flatMap_map, List.filterMap_flatMap, List.filterMap_flatMap, List.map_flatMap]
        congr 1
        funext m
        show (m.dependencies.map Dependency.plain).filterMap Dependency.edge? = _
        rw [List.filterMap_map, List.map_filterMap]
        congr 1
        funext d
        cases d <;> rfl
      simp only [Except.map, bind, Except.bind, pure, Except.pure, Distinct.toList_ofList, firstOccurrences,
        filterMap_edge?_appendNew, hedges, List.filterMap_nil]
      rw [← appendNew_map (f := Edge.plain) fun x y => rfl]
      rfl

end Container

namespace Store

variable {s : Store}

theorem project?_plain (s : Store) (id : ProjectId) : s.plain.project? id = (s.project? id).map Project.plain := by
  simp only [project?, plain, List.getElem?_map]
  cases s.projects[id.index]? with
  | none => rfl
  | some p => cases p <;> rfl

theorem selectFrom_plain (p : Project) (target : String) :
    selectFrom p.plain target = Configuration.plain <$> selectFrom p target := by
  have hfind : p.plain.container.find target = (p.container.find target).map Configuration.plain :=
    Container.find_plain p.container target
  rw [selectFrom, selectFrom, hfind]
  rw [Reporting.map_eq]
  cases p.container.find target with
  | error x => rfl
  | ok c =>
      show (if c.roles.consumable then _ else _) = _
      by_cases h : c.roles.consumable = true
      · simp only [h, if_true]
        rfl
      · simp only [h]
        rfl

theorem destinationNodes_plain (s : Store) (d : Destination) :
    s.plain.destinationNodes d = (s.destinationNodes d).map (List.map BuildNode.plain <$> ·) := by
  unfold destinationNodes
  rw [project?_plain]
  cases s.project? d.producer with
  | none => rfl
  | some p =>
      simp only [Option.map_some, selectFrom_plain]
      have hartifacts : ∀ c : Configuration, p.plain.container.allArtifacts c.plain = p.container.allArtifacts c :=
        Container.allArtifacts_plain p.container
      generalize selectFrom p d.target = selected
      obtain ⟨notices, result⟩ := selected
      cases result with
      | error x => simp [Except.map]
      | ok c =>
          cases ha : p.container.allArtifacts c with
          | error x => simp [Except.map, hartifacts, ha, Reporting.ofExcept, Reporting.after]
          | ok artifacts =>
              simp [Except.map, hartifacts, ha, Reporting.ofExcept, Reporting.after, BuildNode.plain]

theorem edgeNodes_plain (s : Store) (e : Edge) :
    s.plain.edgeNodes e.plain = List.map BuildNode.plain <$> s.edgeNodes e := by
  have hdestination : s.plain.destinationNodes e.plain.destination = _ :=
    destinationNodes_plain s e.destination
  rw [edgeNodes_eq, edgeNodes_eq, hdestination]
  show (if e.buildsProducer then _ else _) = _
  split
  · cases s.destinationNodes e.destination with
    | none => simp [Reporting.fail, Except.map, Edge.plain]
    | some found => rfl
  · simp [Except.map]

theorem edgesOf_plain (s : Store) (id : ProjectId) (c : Configuration) :
    s.plain.edgesOf id c.plain = (s.edgesOf id c).map (·.map Edge.plain) := by
  unfold edgesOf
  rw [project?_plain]
  cases s.project? id with
  | none => rfl
  | some p =>
      have hedges := Container.edges_plain p.container c
      simp only [Option.map_some]
      show (do
        let ds ← p.container.plain.allDependencies c.plain
        return ds.filterMap Dependency.edge?) = _
      cases hplain : p.container.plain.allDependencies c.plain <;>
        cases hds : p.container.allDependencies c <;> rw [hplain, hds] at hedges <;> exact hedges

theorem bring_plain (s : Store) (n : BuildNode) :
    s.plain.bring n.plain = List.map BuildNode.plain <$> s.bring n := by
  -- Tasks and artifacts hold no dependencies; the other nodes go by what they look up.
  cases n with
  | task t => simp [bring, BuildNode.plain, Except.map]
  | artifact a => simp [bring, BuildNode.plain, Except.map]
  | configuration id c =>
      show s.plain.bring (.configuration id c.plain) = _
      rw [bring, bring, edgesOf_plain]
      cases s.edgesOf id c with
      | error x => simp [Reporting.ofExcept, Except.map]
      | ok es =>
          simp [Reporting.ofExcept, Reporting.after, Except.map, BuildNode.plain, TaskDependency.plain]
  | dependency d =>
      cases d with
      | ofEdge e =>
          show s.plain.bring (.dependency (.ofEdge e.plain)) = _
          rw [bring_edge, bring_edge, edgeNodes_plain]
      | listing nodes failure =>
          show s.plain.bring (.dependency (.listing (BuildNode.allPlain nodes) failure)) = _
          rw [BuildNode.allPlain_eq]
          cases failure with
          | none => simp [bring, visit, Reporting.ofExcept, Reporting.after, Except.map]
          | some x => simp [bring, visit, Reporting.fail, Except.map]

/-! ### The walk -/

theorem Dealt.has_plain (dealt : Dealt) (n : BuildNode) : dealt.has n.plain = dealt.has n := by
  cases n <;> rfl

theorem Dealt.add_plain (dealt : Dealt) (n : BuildNode) : dealt.add n.plain = dealt.add n := by
  cases n <;> rfl

theorem taskStep_inStep (s : Store) (dealt : Dealt) (n : BuildNode) :
    Drains.InStep (fun n n' => n' = n.plain) (s.taskStep dealt n) (s.plain.taskStep dealt n.plain) := by
  unfold taskStep
  rw [Dealt.has_plain, Dealt.add_plain, bring_plain]
  split
  · exact .goesOn [] dealt .nil
  · generalize s.bring n = brought
    obtain ⟨notices, result⟩ := brought
    cases result with
    | error x =>
        rw [Reporting.map_eq]
        exact .fails notices x
    | ok nodes =>
        simp only [Reporting.map_eq, Except.map, Reporting.ok_bind, Reporting.pure_eq, Reporting.after,
          List.append_nil]
        refine .goesOn notices (dealt.add n) ?_
        rw [List.forall₂_map_right_iff, List.forall₂_same]
        intro m _
        rfl

/-- Neither transitive flags nor exclude rules have any influence on the tasks of nodes. -/
theorem tasks_plain (s : Store) (nodes : List BuildNode) :
    s.plain.tasks (nodes.map BuildNode.plain) = s.tasks nodes := by
  obtain ⟨outcome, hdrains, htasks⟩ := s.tasks_drains nodes
  obtain ⟨outcome', hdrains', htasks'⟩ := s.plain.tasks_drains (nodes.map BuildNode.plain)
  have hrelated : List.Forall₂ (fun n n' => n' = BuildNode.plain n) nodes (nodes.map BuildNode.plain) := by
    rw [List.forall₂_map_right_iff, List.forall₂_same]
    intro n _
    rfl
  have hsame : outcome = outcome' := by
    refine Drains.lockstep ?_ hdrains hdrains' hrelated
    rintro dealt n _ rfl
    exact taskStep_inStep s dealt n
  rw [htasks, htasks', hsame]

end Store

end ProjectGraph
