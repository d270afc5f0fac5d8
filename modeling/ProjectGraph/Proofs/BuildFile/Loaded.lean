import ProjectGraph.Proofs.Build.Growth
import ProjectGraph.Proofs.BuildFile.Decoded
import ProjectGraph.Proofs.BuildFile.Described

/-!
Builds as they are loaded. Loading takes the steps that any build may take, so what it gives is reachable. Edges are
made to projects of the tree by looking them up there, so the build is self-contained. And the paths of its tree are
those of the build file and the paths on the way down to them, all of which can be written.
-/

namespace ProjectGraph

namespace Build

variable {b b' : Build}

/-! ### What steps do to edges -/

theorem selfContained_start (store : Store) (rootName : String) (reporter : ReporterId) :
    (start store rootName reporter).SelfContained := by
  intro x hx
  obtain ⟨path, id, p, name, c, hid, hp, hc, _⟩ := mem_edges_iff.1 hx
  -- The root project declares nothing.
  rw [(root_of_start hid).2] at hp
  cases hp
  simp [Project.new, Container.new, Container.find?] at hc

theorem SelfContained.add (h : b.SelfContained) {path : ProjectPath} (hfree : b.tree.projects[path]? = none)
    (name : String) : (b.add path name).1.SelfContained := by
  intro x hx
  obtain ⟨other, id, p, key, c, hid, hp, hc, hdeclared⟩ := mem_edges_iff.1 hx
  rw [project?_add] at hp
  split at hp
  · -- Nor does a project that was made just now.
    cases hp
    simp [Project.new, Container.new, Container.find?] at hc
  · rename_i hold
    rw [getElem?_add] at hid
    split at hid
    · exact absurd (Option.some.inj hid).symm hold
    · have hinto : x.Into b := h x (mem_edges_iff.2 ⟨other, id, p, key, c, hid, hp, hc, hdeclared⟩)
      unfold Edge.Into at hinto ⊢
      rw [getElem?_add, if_neg]
      · exact hinto
      · rintro rfl
        rw [hfree] at hinto
        cases hinto

theorem SelfContained.addProject (h : b.SelfContained) (path : ProjectPath) :
    (b.addProject path).1.SelfContained :=
  addProject_keeps (fun _ step _ hfree hb => hb.add hfree step.2) h

/-- A change to one project keeps all edges in the tree if it keeps those of the project there. -/
theorem SelfContained.change (h : b.SelfContained) (id : ProjectId) (f : Project → Project)
    (inside : ∀ p, b.store.project? id = some p → ∀ name c, (f p).container.find? name = some c →
      ∀ x, .project x ∈ c.dependencies →
        x.Into b ∨ ∃ c', p.container.find? name = some c' ∧ .project x ∈ c'.dependencies) :
    SelfContained { b with store := b.store.modify id f } := by
  intro x hx
  obtain ⟨path, other, p, name, c, hid, hp, hc, hdeclared⟩ := mem_edges_iff.1 hx
  rw [Store.project?_modify] at hp
  split at hp
  · rename_i heq
    subst heq
    obtain ⟨q, hq, rfl⟩ := Option.map_eq_some_iff.1 hp
    rcases inside q hq name c hc x hdeclared with hinto | ⟨c', hc', hdeclared'⟩
    · exact hinto
    · exact h x (mem_edges_iff.2 ⟨path, id, q, name, c', hid, hq, hc', hdeclared'⟩)
  · exact h x (mem_edges_iff.2 ⟨path, other, p, name, c, hid, hp, hc, hdeclared⟩)

/-! ### What loading keeps -/

/-- What is known of a build that was loaded. -/
structure Proper (b : Build) : Prop where
  reachable : b.Reachable
  selfContained : b.SelfContained
  written : ∀ (path : ProjectPath) (id : ProjectId), b.tree.projects[path]? = some id → path.Written

theorem proper_start (store : Store) (rootName : String) (reporter : ReporterId) :
    (start store rootName reporter).Proper where
  reachable := .start store rootName reporter
  selfContained := selfContained_start store rootName reporter
  written := by
    intro path id hid
    rw [(root_of_start hid).1]
    exact ProjectPath.written_root

theorem written_addProject
    (h : ∀ (path : ProjectPath) (id : ProjectId), b.tree.projects[path]? = some id → path.Written)
    {path : ProjectPath} (hpath : path.Written) :
    ∀ (other : ProjectPath) (id : ProjectId), (b.addProject path).1.tree.projects[other]? = some id →
      other.Written := by
  refine addProject_keeps (P := fun b => ∀ (other : ProjectPath) (id : ProjectId),
    b.tree.projects[other]? = some id → other.Written) ?_ h
  intro b step hstep _ hb other id hid
  rw [getElem?_add] at hid
  split at hid
  · rename_i heq
    rw [← heq]
    exact hpath.descent hstep
  · exact hb other id hid

/-- The project of an entry is that at its path, made or not, and it takes what the entry says. -/
theorem Rooted.outline_eq (h : b.Rooted) (spec : ProjectSpec) :
    b.outline spec = .ok { (b.addProject spec.path).1 with
      store := (b.addProject spec.path).1.store.modify (b.addProject spec.path).2 fun p =>
        { p with group := spec.group.getD p.group, version := spec.version.getD p.version } } := by
  unfold outline
  split
  · rename_i hroot
    obtain ⟨path, group, version, configurations⟩ := spec
    obtain ⟨segments⟩ := path
    cases List.isEmpty_iff.1 hroot
    rfl
  · rw [h.enroll_eq]
    rfl

theorem Proper.outline (h : b.Proper) {spec : ProjectSpec} (hpath : spec.path.Written)
    (hok : b.outline spec = .ok b') : b'.Proper := by
  rw [h.reachable.rooted.outline_eq] at hok
  cases hok
  exact {
    reachable := (h.reachable.addProject spec.path).change _ _ fun _ _ => ⟨rfl, rfl, .refl _⟩
    selfContained := (h.selfContained.addProject spec.path).change _ _ fun _ _ _ c hc _ hx => Or.inr ⟨c, hc, hx⟩
    written := written_addProject h.written hpath }

/-- Registering a declaration whose edges lead into the build. -/
theorem Proper.register (h : b.Proper) {path : ProjectPath} {d : Declaration}
    (hd : ∀ x, .project x ∈ d.dependencies → x.Into b) (hok : b.register path d = .ok b') : b'.Proper := by
  obtain ⟨id, _, hok⟩ := except_bind_eq_ok.1 hok
  split at hok
  · cases hok
  · rename_i p hp
    obtain ⟨_, _, hok⟩ := except_bind_eq_ok.1 hok
    cases hok
    refine ⟨h.reachable.change id _ ?_, h.selfContained.change id _ ?_, h.written⟩
    · intro q hq
      rw [hp] at hq
      cases hq
      exact p.becomes_declare d
    · intro q hq name c hc x hx
      rw [hp] at hq
      cases hq
      have hfind : (p.container.register d).1.find? name = some c := hc
      rcases p.container.register_cases d with heq | ⟨_, heq⟩
      · rw [heq] at hfind
        exact Or.inr ⟨c, hfind, hx⟩
      · rw [heq, Container.find?_put] at hfind
        split at hfind
        · cases hfind
          exact Or.inl (hd x hx)
        · exact Or.inr ⟨c, hfind, hx⟩

end Build

namespace Build

theorem Proper.furnish {b b' : Build} (h : b.Proper) {spec : ProjectSpec} (hok : b.furnish spec = .ok b') :
    b'.Proper := by
  refine foldlM_keeps ?_ h hok
  intro b c b' _ hb hstep
  obtain ⟨d, hd, hstep⟩ := except_bind_eq_ok.1 hstep
  exact hb.register (ConfigurationSpec.declaration_eq_ok.1 hd).into hstep

/-- A build that was loaded from a file whose paths can be written is proper. -/
theorem proper_load {f : BuildFile} (hpaths : ∀ spec ∈ f.projects, spec.path.Written) {store : Store}
    {reporter : ReporterId} {b : Build} (h : f.load store reporter = .ok b) : b.Proper := by
  obtain ⟨outlined, houtlined, hfurnished⟩ := except_bind_eq_ok.1 h
  have hproper : outlined.Proper := by
    refine foldlM_keeps ?_ (proper_start store f.rootProject reporter) houtlined
    intro b spec b' hspec hb hstep
    exact hb.outline (hpaths spec hspec) hstep
  refine foldlM_keeps ?_ hproper hfurnished
  intro b spec b' _ hb hstep
  exact hb.furnish hstep

end Build

end ProjectGraph
