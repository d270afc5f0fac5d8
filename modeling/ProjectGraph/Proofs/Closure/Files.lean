import ProjectGraph.Proofs.Closure.History

/-!
The files and the constraints of a closure, member by member. Whatever an edge hands on, its own files count; its
constraints count only if they are handed on. The walk puts what a member brings behind all that members in front of
it brought, so both lists are first occurrences of what the members bring, in their order. No exclude rule has a part
in this.
-/

namespace ProjectGraph

namespace Store

variable {s : Store} {transitive : Bool}

/-- What one more member brings goes behind all that was gathered from the members in front of it. -/
theorem appendNew_gathered {α : Type} [BEq α] (brings : Dependency → List α) (before : List α)
    (ds : List Dependency) (d : Dependency) :
    appendNew (firstOccurrences (before ++ ds.flatMap brings)) (brings d) =
      firstOccurrences (before ++ (ds ++ [d]).flatMap brings) := by
  rw [List.flatMap_append, List.flatMap_singleton, ← List.append_assoc, firstOccurrences, firstOccurrences,
    ← appendNew_append]

/-! ### Files -/

/-- The files that a dependency publishes, if it leads to anything. -/
def filesOf (s : Store) (d : Dependency) : List FilePath :=
  (s.atTarget Container.allArtifacts d).map (·.file)

theorem filesOf_eq {e : Edge} {p : Project} {c : Configuration} {artifacts : List Artifact}
    (hsel : s.Selects e p c) (ha : p.container.allArtifacts c = .ok artifacts) :
    s.filesOf (.project e) = artifacts.map (·.file) := by
  rw [filesOf, atTarget_eq hsel ha]

theorem mem_filesOf {d : Dependency} {f : FilePath} :
    f ∈ s.filesOf d ↔ ∃ e p c artifacts, d = .project e ∧ s.Selects e p c ∧
      p.container.allArtifacts c = .ok artifacts ∧ ∃ a ∈ artifacts, a.file = f := by
  simp only [filesOf, List.mem_map, mem_atTarget]
  constructor
  · rintro ⟨a, ⟨e, p, c, artifacts, hd, hsel, ha, hmem⟩, hf⟩
    exact ⟨e, p, c, artifacts, hd, hsel, ha, a, hmem, hf⟩
  · rintro ⟨e, p, c, artifacts, hd, hsel, ha, a, hmem, hf⟩
    exact ⟨a, ⟨e, p, c, artifacts, hd, hsel, ha, hmem⟩, hf⟩

theorem takeUp_files_eq {p : Pending} {y : Yield} (h : (s.takeUp transitive p).result = .ok y) :
    y.files = s.filesOf p.dependency := by
  obtain ⟨d, above⟩ := p
  cases d with
  | module m =>
      cases h
      rfl
  | project e =>
      obtain ⟨q, c, members, hsel, hmembers, rfl⟩ := takeUp_project_eq_ok h
      have ha : q.container.allArtifacts c = .ok _ := Container.inherited_eq_ok.2 ⟨members, hmembers, rfl⟩
      rw [filesOf_eq hsel ha]

/-- The files keep up with the members. -/
theorem files_keep (s : Store) (transitive : Bool) :
    Keeps (s.closureStep transitive) fun _ c => c.files = firstOccurrences (c.dependencies.flatMap s.filesOf) := by
  intro p queue added c c' notices h hstep
  rcases closureStep_eq_ok (congrArg Reporting.result hstep) with ⟨_, rfl, _⟩ | ⟨_, y, hy, _, rfl⟩
  · exact h
  · show appendNew c.files y.files = firstOccurrences ((c.dependencies ++ [p.dependency]).flatMap s.filesOf)
    rw [h, takeUp_files_eq hy]
    exact appendNew_gathered s.filesOf [] c.dependencies p.dependency

/-- The files of a closure are those of its members, each once. -/
theorem files_of_closure {i : Intake} {c : Closure} (h : (s.closure i).result = .ok c) :
    c.files = firstOccurrences (c.dependencies.flatMap s.filesOf) :=
  (closure_drains s i).ok (files_keep s i.transitive) rfl h

/-! ### Constraints -/

/-- The constraints that a dependency hands on, if both it and the walk are transitive. -/
def handedOn (s : Store) (transitive : Bool) (d : Dependency) : List Constraint :=
  if d.request.transitive && transitive then s.atTarget Container.allConstraints d else []

theorem handedOn_module (m : ModuleDependency) : s.handedOn transitive (.module m) = [] := by
  simp [handedOn, atTarget]

theorem handedOn_project (e : Edge) :
    s.handedOn transitive (.project e) =
      if e.request.transitive && transitive then s.atTarget Container.allConstraints (.project e) else [] := rfl

theorem takeUp_constraints_eq {p : Pending} {y : Yield} (h : (s.takeUp transitive p).result = .ok y) :
    y.constraints = s.handedOn transitive p.dependency := by
  obtain ⟨d, above⟩ := p
  cases d with
  | module m =>
      cases h
      exact (handedOn_module m).symm
  | project e =>
      obtain ⟨q, c, members, hsel, hmembers, rfl⟩ := takeUp_project_eq_ok h
      have hcs : q.container.allConstraints c = .ok _ := Container.inherited_eq_ok.2 ⟨members, hmembers, rfl⟩
      rw [handedOn_project, atTarget_eq hsel hcs]

/-- The constraints keep up with the members, behind those that were there before. -/
theorem constraints_keep (s : Store) (transitive : Bool) (before : List Constraint) :
    Keeps (s.closureStep transitive) fun _ c =>
      c.constraints = firstOccurrences (before ++ c.dependencies.flatMap (s.handedOn transitive)) := by
  intro p queue added c c' notices h hstep
  rcases closureStep_eq_ok (congrArg Reporting.result hstep) with ⟨_, rfl, _⟩ | ⟨_, y, hy, _, rfl⟩
  · exact h
  · show appendNew c.constraints y.constraints =
      firstOccurrences (before ++ (c.dependencies ++ [p.dependency]).flatMap (s.handedOn transitive))
    rw [h, takeUp_constraints_eq hy]
    exact appendNew_gathered (s.handedOn transitive) before c.dependencies p.dependency

/-- The constraints of a closure are those it starts from and those that its members hand on, each once. -/
theorem constraints_of_closure {i : Intake} {c : Closure} (h : (s.closure i).result = .ok c) :
    c.constraints = firstOccurrences (i.constraints ++ c.dependencies.flatMap (s.handedOn i.transitive)) := by
  refine (closure_drains s i).ok (constraints_keep s i.transitive i.constraints) ?_ h
  rw [List.flatMap_nil, List.append_nil]

end Store

end ProjectGraph
