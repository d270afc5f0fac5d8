import ProjectGraph.BuildTree
import ProjectGraph.Proofs.Container.Runs

/-!
Runs of a build: projects are added, their coordinates are set, and their containers are changed by their own
operations, in any order. What other builds do in the same store is a step too, as long as it leaves the
projects of this tree alone.

A build stays coherent: behind each path of its tree is a live project of that path, whose container belongs
to the path and is keyed.
-/

namespace ProjectGraph

/-- What operations make of a project: its path and its reporter stay, its container takes a run. -/
structure Project.Becomes (p p' : Project) : Prop where
  path_eq : p'.path = p.path
  reporter_eq : p'.reporter = p.reporter
  run : p.container.Run p'.container

theorem Project.Becomes.refl (p : Project) : p.Becomes p := ⟨rfl, rfl, .refl _⟩

theorem Project.Becomes.trans {p p' p'' : Project} (h : p.Becomes p') (h' : p'.Becomes p'') : p.Becomes p'' where
  path_eq := h'.path_eq.trans h.path_eq
  reporter_eq := h'.reporter_eq.trans h.reporter_eq
  run := h.run.trans h'.run

/-- The project with a configuration registered, if there is none of the name. -/
def Project.declare (p : Project) (d : Declaration) : Project :=
  { p with container := (p.container.register d).1 }

theorem Project.becomes_declare (p : Project) (d : Declaration) : p.Becomes (p.declare d) :=
  ⟨rfl, rfl, .register d (.refl _)⟩

namespace Store

theorem project?_add (s : Store) (p : Project) (id : ProjectId) :
    (s.add p).1.project? id = if id = (s.add p).2 then some p else s.project? id := by
  obtain ⟨i⟩ := id
  simp only [project?, add, ProjectId.mk.injEq]
  rcases Nat.lt_trichotomy i s.projects.length with h | h | h
  · rw [List.getElem?_append_left h, if_neg (Nat.ne_of_lt h)]
  · subst h
    simp
  · rw [List.getElem?_eq_none (by simp; omega), List.getElem?_eq_none (by omega), if_neg (by omega)]

/-- A live project has another number than the next one to come. -/
theorem ne_add_of_project? {s : Store} {id : ProjectId} {p : Project} (h : s.project? id = some p)
    (q : Project) : id ≠ (s.add q).2 := by
  rintro rfl
  simp [project?, add] at h

theorem project?_modify (s : Store) (id other : ProjectId) (f : Project → Project) :
    (s.modify id f).project? other =
      if id = other then (s.project? other).map f else s.project? other := by
  obtain ⟨i⟩ := id
  obtain ⟨j⟩ := other
  simp only [project?, modify, List.getElem?_modify, ProjectId.mk.injEq]
  by_cases h : i = j
  · subst h
    cases s.projects[i]? <;> simp
  · simp [h]

end Store

namespace Build

/-- The states that a build can be in. -/
inductive Reachable : Build → Prop
  | start (store : Store) (rootName : String) (reporter : ReporterId) :
      Reachable (.start store rootName reporter)
  | addProject {b : Build} (path : ProjectPath) (before : Reachable b) : Reachable (b.addProject path).1
  | change {b : Build} (id : ProjectId) (f : Project → Project) (before : Reachable b)
      (becomes : ∀ p, b.store.project? id = some p → p.Becomes (f p)) :
      Reachable { b with store := b.store.modify id f }
  | elsewhere {b : Build} (store : Store) (before : Reachable b)
      (same : ∀ (path : ProjectPath) (id : ProjectId), b.tree.projects[path]? = some id →
        store.project? id = b.store.project? id) :
      Reachable { b with store }

/-- Registers a configuration in a project. -/
def declare (b : Build) (id : ProjectId) (d : Declaration) : Build :=
  { b with store := b.store.modify id (·.declare d) }

theorem Reachable.declare {b : Build} (h : b.Reachable) (id : ProjectId) (d : Declaration) :
    (b.declare id d).Reachable :=
  h.change id (·.declare d) fun p _ => p.becomes_declare d

/-! ### The root project alone -/

section Start

variable {store : Store} {rootName : String} {reporter : ReporterId} {path : ProjectPath} {id : ProjectId} {p : Project}

theorem mem_start_iff : path ∈ (start store rootName reporter).tree.projects ↔ path = .root := by
  simp [start, Std.ExtTreeMap.mem_insert, Std.LawfulEqCmp.compare_eq_iff_eq, eq_comm (a := path)]

/-- A tree starts with its root project, as it was made. -/
theorem root_of_start (h : (start store rootName reporter).tree.projects[path]? = some id) :
    path = .root ∧ (start store rootName reporter).store.project? id = some (.new .root rootName reporter) := by
  simp only [start, Std.ExtTreeMap.getElem?_insert, Std.LawfulEqCmp.compare_eq_iff_eq] at h ⊢
  split at h
  · rename_i hpath
    cases h
    exact ⟨hpath.symm, by rw [Store.project?_add, if_pos rfl]⟩
  · simp at h

theorem project?_start (h : store.project? id = some p) (rootName : String) (reporter : ReporterId) :
    (start store rootName reporter).store.project? id = some p := by
  simp only [start]
  rwa [Store.project?_add, if_neg (Store.ne_add_of_project? h _)]

end Start

/-! ### One more project -/

theorem getElem?_add (b : Build) (path other : ProjectPath) (name : String) :
    (b.add path name).1.tree.projects[other]? =
      if path = other then some (b.add path name).2 else b.tree.projects[other]? := by
  simp [add, Std.ExtTreeMap.getElem?_insert, Std.LawfulEqCmp.compare_eq_iff_eq]

theorem project?_add (b : Build) (path : ProjectPath) (name : String) (id : ProjectId) :
    (b.add path name).1.store.project? id =
      if id = (b.add path name).2 then some (.new path name b.tree.reporter) else b.store.project? id :=
  Store.project?_add b.store (.new path name b.tree.reporter) id

/-- Projects that are there already stay as they are. -/
theorem project?_add_of_some {b : Build} {id : ProjectId} {p : Project} (h : b.store.project? id = some p)
    (path : ProjectPath) (name : String) : (b.add path name).1.store.project? id = some p := by
  rw [project?_add, if_neg]
  · exact h
  · exact Store.ne_add_of_project? h (.new path name b.tree.reporter)

/-- A request for a project leaves the build as it is, or adds a project where none was. -/
theorem ensure_keeps {P : Build → Prop} {b : Build} {path : ProjectPath} {name : String} (h : P b)
    (keeps : b.tree.projects[path]? = none → P (b.add path name).1) : P (b.ensure path name).1 := by
  unfold ensure
  split
  · exact h
  · rename_i hfree
    exact keeps hfree

/-- What is kept whenever a project is added on the way down to a path is kept on the whole way. -/
theorem addProject_keeps {P : Build → Prop} {b : Build} {path : ProjectPath}
    (keeps : ∀ (b : Build), ∀ step ∈ path.descent, b.tree.projects[step.1]? = none → P b → P (b.add step.1 step.2).1)
    (h : P b) : P (b.addProject path).1 := by
  unfold addProject
  generalize b.tree.root = last
  generalize path.descent = steps at keeps ⊢
  induction steps generalizing b last with
  | nil => exact h
  | cons step steps ih =>
      have hensured : P (b.ensure step.1 step.2).1 :=
        ensure_keeps h fun hfree => keeps b step List.mem_cons_self hfree h
      exact ih hensured _ fun b later hlater => keeps b later (List.mem_cons_of_mem step hlater)

/-- Adding projects leaves those alone that are there. -/
theorem project?_addProject {b : Build} {id : ProjectId} {p : Project} (h : b.store.project? id = some p)
    (path : ProjectPath) : (b.addProject path).1.store.project? id = some p :=
  addProject_keeps (P := fun b => b.store.project? id = some p)
    (fun _ step _ _ hb => project?_add_of_some hb step.1 step.2) h

/-- What the project at a path is like. -/
structure Sound (path : ProjectPath) (p : Project) : Prop where
  path_eq : p.path = path
  owner_eq : p.container.owner = path
  keyed : p.container.Keyed

/-- Behind each path of the tree is a live project that is sound there. -/
def Coherent (b : Build) : Prop :=
  ∀ (path : ProjectPath) (id : ProjectId), b.tree.projects[path]? = some id →
    ∃ p, b.store.project? id = some p ∧ Sound path p

theorem sound_new (path : ProjectPath) (name : String) (reporter : ReporterId) :
    Sound path (.new path name reporter) :=
  ⟨rfl, rfl, Container.keyed_new _ _⟩

theorem Sound.becomes {path : ProjectPath} {p p' : Project} (h : Sound path p) (hp : p.Becomes p') :
    Sound path p' where
  path_eq := hp.path_eq.trans h.path_eq
  owner_eq := hp.run.owner_eq.trans h.owner_eq
  keyed := hp.run.keyed h.keyed

/-! ### Projects that are listed -/

theorem mem_projects_iff {b : Build} {p : Project} : p ∈ b.projects ↔
    ∃ (path : ProjectPath) (id : ProjectId), b.tree.projects[path]? = some id ∧ b.store.project? id = some p := by
  unfold projects
  rw [List.mem_filterMap]
  constructor
  · rintro ⟨⟨path, id⟩, hid, hp⟩
    exact ⟨path, id, Std.ExtTreeMap.mem_toList_iff_getElem?_eq_some.1 hid, hp⟩
  · rintro ⟨path, id, hid, hp⟩
    exact ⟨(path, id), Std.ExtTreeMap.mem_toList_iff_getElem?_eq_some.2 hid, hp⟩

/-! ### Steps -/

theorem coherent_start (store : Store) (rootName : String) (reporter : ReporterId) :
    (start store rootName reporter).Coherent := by
  intro path id h
  obtain ⟨rfl, hp⟩ := root_of_start h
  exact ⟨_, hp, sound_new .root rootName reporter⟩

theorem Coherent.add {b : Build} (h : b.Coherent) (path : ProjectPath) (name : String) :
    (b.add path name).1.Coherent := by
  intro other id hid
  rw [getElem?_add] at hid
  split at hid
  · rename_i heq
    cases hid
    subst heq
    exact ⟨_, by rw [project?_add, if_pos rfl], sound_new path name b.tree.reporter⟩
  · obtain ⟨p, hp, hsound⟩ := h other id hid
    exact ⟨p, project?_add_of_some hp path name, hsound⟩

theorem Coherent.addProject {b : Build} (h : b.Coherent) (path : ProjectPath) :
    (b.addProject path).1.Coherent :=
  addProject_keeps (fun _ step _ _ hb => hb.add step.1 step.2) h

theorem Coherent.change {b : Build} (h : b.Coherent) (id : ProjectId) (f : Project → Project)
    (becomes : ∀ p, b.store.project? id = some p → p.Becomes (f p)) :
    Coherent { b with store := b.store.modify id f } := by
  intro path other hother
  obtain ⟨p, hp, hsound⟩ := h path other hother
  rw [Store.project?_modify]
  split
  · rename_i heq
    subst heq
    exact ⟨f p, by rw [hp]; rfl, hsound.becomes (becomes p hp)⟩
  · exact ⟨p, hp, hsound⟩

/-! ### Runs -/

theorem Reachable.coherent {b : Build} (h : b.Reachable) : b.Coherent := by
  induction h with
  | start store rootName reporter => exact coherent_start store rootName reporter
  | addProject path before ih => exact ih.addProject path
  | change id f before becomes ih => exact ih.change id f becomes
  | elsewhere store before same ih =>
      intro path id hid
      obtain ⟨p, hp, hsound⟩ := ih path id hid
      exact ⟨p, (same path id hid).trans hp, hsound⟩

end Build

end ProjectGraph
