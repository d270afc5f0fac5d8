import ProjectGraph.Proofs.Closure.Files

/-!
What the target of an edge holds, declared there or inherited, in whatever order and however often. `Holds` says it
of dependencies, constraints and files alike. Dependencies below an edge are what its target holds; constraints and
files of a closure are what the targets of its edges hold.
-/

namespace ProjectGraph

theorem contains_flatMap_iff {α β : Type} [BEq β] {xs : List α} {f : α → List β} {y : β} :
    (xs.flatMap f).contains y = true ↔ ∃ x ∈ xs, (f x).contains y = true := by
  rw [List.contains_flatMap, List.any_eq_true]

namespace Store

variable {s : Store} {transitive : Bool} {e : Edge}

/-- A member of the hierarchy of the target holds something that is the same as `x`. -/
def Holds {α : Type} [BEq α] (s : Store) (items : Configuration → List α) (e : Edge) (x : α) : Prop :=
  ∃ p c members, s.Selects e p c ∧ p.container.hierarchy c = .ok members ∧
    (members.flatMap items).contains x = true

theorem contains_atTarget_iff {α : Type} [BEq α] [Ord α] [Std.TransOrd α] [Std.LawfulBEqOrd α] [EquivBEq α]
    {items : Configuration → List α} {x : α} :
    (s.atTarget (·.inherited · items) (.project e)).contains x = true ↔ s.Holds items e x := by
  constructor
  · intro h
    obtain ⟨x', hx', _⟩ := List.contains_iff_exists_mem_beq.1 h
    obtain ⟨e', p, c, xs, he, hsel, hxs, _⟩ := mem_atTarget.1 hx'
    cases he
    obtain ⟨members, hmembers, rfl⟩ := Container.inherited_eq_ok.1 hxs
    rw [atTarget_eq hsel hxs, contains_firstOccurrences] at h
    exact ⟨p, c, members, hsel, hmembers, h⟩
  · rintro ⟨p, c, members, hsel, hmembers, hx⟩
    have hxs : p.container.inherited c items = .ok _ := Container.inherited_eq_ok.2 ⟨members, hmembers, rfl⟩
    rwa [atTarget_eq hsel hxs, contains_firstOccurrences]

theorem contains_below_iff {d : Dependency} :
    (s.below (.project e)).contains d = true ↔ s.Holds (·.dependencies) e d := by
  rw [below_eq_atTarget]
  exact contains_atTarget_iff

/-! ### Files -/

/-- Artifacts that are the same have the same file. -/
theorem contains_files_firstOccurrences (artifacts : List Artifact) (f : FilePath) :
    ((firstOccurrences artifacts).map (·.file)).contains f = (artifacts.map (·.file)).contains f := by
  rw [Bool.eq_iff_iff, List.contains_iff_exists_mem_beq, List.contains_iff_exists_mem_beq]
  constructor
  · rintro ⟨g, hg, hfg⟩
    obtain ⟨a, ha, rfl⟩ := List.mem_map.1 hg
    exact ⟨a.file, List.mem_map_of_mem (mem_of_mem_firstOccurrences ha), hfg⟩
  · rintro ⟨g, hg, hfg⟩
    obtain ⟨a, ha, rfl⟩ := List.mem_map.1 hg
    obtain ⟨a', ha', hsame⟩ := exists_mem_firstOccurrences ha
    have hidentity := Artifact.beq_iff.1 hsame
    simp only [Artifact.identity, Prod.mk.injEq] at hidentity
    obtain ⟨_, _, _, hfile, _⟩ := hidentity
    exact ⟨a'.file, List.mem_map_of_mem ha', BEq.trans hfg (FilePath.beq_iff.2 hfile)⟩

theorem contains_filesOf_iff {f : FilePath} :
    (s.filesOf (.project e)).contains f = true ↔ s.Holds (fun m => m.artifacts.map (·.file)) e f := by
  have hpublished : ∀ members : List Configuration,
      ((firstOccurrences (members.flatMap (·.artifacts))).map (·.file)).contains f =
        (members.flatMap fun m => m.artifacts.map (·.file)).contains f := by
    intro members
    rw [contains_files_firstOccurrences, List.map_flatMap]
  constructor
  · intro h
    obtain ⟨f', hf', hsame⟩ := List.contains_iff_exists_mem_beq.1 h
    obtain ⟨e', p, c, artifacts, he, hsel, ha, _⟩ := mem_filesOf.1 hf'
    cases he
    obtain ⟨members, hmembers, rfl⟩ := Container.inherited_eq_ok.1 ha
    rw [filesOf_eq hsel ha, hpublished] at h
    exact ⟨p, c, members, hsel, hmembers, h⟩
  · rintro ⟨p, c, members, hsel, hmembers, hf⟩
    have ha : p.container.allArtifacts c = .ok _ := Container.inherited_eq_ok.2 ⟨members, hmembers, rfl⟩
    rwa [filesOf_eq hsel ha, hpublished]

theorem contains_files_iff {i : Intake} {c : Closure} (h : (s.closure i).result = .ok c) {f : FilePath} :
    c.files.contains f = true ↔
      ∃ e, .project e ∈ c.dependencies ∧ s.Holds (fun m => m.artifacts.map (·.file)) e f := by
  rw [files_of_closure h, contains_firstOccurrences, contains_flatMap_iff]
  constructor
  · rintro ⟨d, hd, hf⟩
    cases d with
    | module m => cases hf
    | project e => exact ⟨e, hd, contains_filesOf_iff.1 hf⟩
  · rintro ⟨e, he, hf⟩
    exact ⟨_, he, contains_filesOf_iff.2 hf⟩

/-! ### Constraints -/

/-- A dependency hands on a constraint if it is an edge, both it and the walk are transitive, and its target holds
the constraint. -/
def HandsOn (s : Store) (transitive : Bool) (d : Dependency) (x : Constraint) : Prop :=
  ∃ e, d = .project e ∧ (e.request.transitive = true ∧ transitive = true) ∧ s.Holds (·.constraints) e x

theorem contains_handedOn_iff {d : Dependency} {x : Constraint} :
    (s.handedOn transitive d).contains x = true ↔ s.HandsOn transitive d x := by
  cases d with
  | module m =>
      refine iff_of_false (by simp [handedOn_module]) ?_
      rintro ⟨e, he, _⟩
      cases he
  | project e =>
      have hhands : s.HandsOn transitive (.project e) x ↔
          (e.request.transitive = true ∧ transitive = true) ∧ s.Holds (·.constraints) e x := by
        constructor
        · rintro ⟨e', he', h⟩
          cases he'
          exact h
        · intro h
          exact ⟨e, rfl, h⟩
      rw [hhands, ← contains_atTarget_iff, ← Bool.and_eq_true, handedOn_project]
      split
      · rename_i hopened
        exact (and_iff_right hopened).symm
      · rename_i hshut
        exact iff_of_false (by simp) fun h => hshut h.1

/-- The constraints of a closure are those it started from and those that its members hand on. -/
theorem contains_constraints_iff {i : Intake} {c : Closure} (h : (s.closure i).result = .ok c) {x : Constraint} :
    c.constraints.contains x = true ↔
      i.constraints.contains x = true ∨ ∃ d ∈ c.dependencies, s.HandsOn i.transitive d x := by
  rw [constraints_of_closure h, contains_firstOccurrences, List.contains_append, Bool.or_eq_true,
    contains_flatMap_iff]
  simp only [contains_handedOn_iff]

end Store

end ProjectGraph
