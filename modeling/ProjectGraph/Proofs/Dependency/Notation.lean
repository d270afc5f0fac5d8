import ProjectGraph.Dependency.Module
import ProjectGraph.Proofs.Path.Spelling

/-!
Notations that are read back. A module is written as its group, its name and, if one is asked for, its version, with
colons in between. What is read has none of these empty or with a colon in it, and asks for nothing else, so it is read
back. A text that ends in an empty version is read as if it ended in front of the last colon.

Paths of projects and of tasks are read back, too (`notations_read_back`).
-/

namespace ProjectGraph

/-! ### Texts with colons in between -/

theorem eq_intercalate_of_splitOn {text : String} {pieces : List (List Char)} (h : text.toList.splitOn ':' = pieces) :
    text = ":".intercalate (pieces.map String.ofList) ∧ ∀ piece ∈ pieces, ':' ∉ piece := by
  subst h
  constructor
  · apply String.toList_inj.1
    rw [String.toList_intercalate, List.map_map]
    simp [Function.comp_def]
  · exact fun piece => ProjectPath.not_mem_of_mem_splitOn

namespace ModuleDependency

variable {text : String} {m : ModuleDependency}

/-- The notation has room for all that is asked for. -/
structure Written (m : ModuleDependency) : Prop where
  group : BetweenColons m.group
  name : BetweenColons m.name
  version : ∀ v, m.version = some v → BetweenColons v
  request : m.request = .targeting none

/-- What is read can be written, and was written so, but for a last colon with nothing behind it. -/
theorem written_of_parse? (h : parse? text = some m) :
    m.Written ∧ (text = m.render ∨ m.version = none ∧ text = m.render ++ ":") := by
  unfold parse? at h
  split at h
  · rename_i group name version hpieces
    obtain ⟨rfl, hcolons⟩ := eq_intercalate_of_splitOn hpieces
    have hbetween {piece : List Char} (hpiece : piece ∈ group :: name :: version) (hsome : piece ≠ []) :
        BetweenColons (String.ofList piece) :=
      ⟨by simpa using hsome, by simpa using hcolons piece hpiece⟩
    split at h
    · cases h
    · rename_i hgiven
      simp only [Bool.or_eq_true, List.isEmpty_iff, not_or] at hgiven
      have hgroup := hbetween (by simp) hgiven.1
      have hname := hbetween (by simp) hgiven.2
      split at h
      · cases h
        exact ⟨⟨hgroup, hname, nofun, rfl⟩, Or.inl (by simp [render, coordinates])⟩
      · rename_i v
        cases h
        by_cases hv : v = []
        · subst hv
          exact ⟨⟨hgroup, hname, nofun, rfl⟩, Or.inr ⟨rfl, by simp [render, coordinates, version?, String.append_assoc]⟩⟩
        · have hversion : version? v = some (String.ofList v) := by simp [version?, hv]
          refine ⟨⟨hgroup, hname, ?_, rfl⟩, Or.inl ?_⟩
          · intro w hw
            cases hversion.symm.trans hw
            exact hbetween (by simp) hv
          · simp [render, coordinates, hversion, String.append_assoc]
      · cases h
  · cases h

/-- Two or three pieces are read; an empty third one is no version. -/
theorem parse?_intercalate {group name : String} {version : Option String} (hgroup : BetweenColons group)
    (hname : BetweenColons name) (hversion : ∀ v, version = some v → ':' ∉ v.toList) :
    parse? (":".intercalate (group :: name :: version.toList)) =
      some ⟨group, name, version.bind (version? ·.toList), .targeting none⟩ := by
  have hcolons : ∀ s ∈ group :: name :: version.toList, ':' ∉ s.toList := by
    refine List.forall_mem_cons.2 ⟨hgroup.2, List.forall_mem_cons.2 ⟨hname.2, fun v hv => ?_⟩⟩
    exact hversion v (Option.mem_toList.1 hv)
  have hpieces : (":".intercalate (group :: name :: version.toList)).toList.splitOn ':' =
      (group :: name :: version.toList).map String.toList := by
    rw [String.toList_intercalate]
    exact splitOn_intercalate_toList (by simp) hcolons
  have hgiven : (group.toList.isEmpty || name.toList.isEmpty) = false := by simp [hgroup.1, hname.1]
  rw [parse?, hpieces]
  simp only [List.map_cons, hgiven, Bool.false_eq_true, if_false, String.ofList_toList]
  cases version <;> rfl

/-- The texts that are read are those that are written, and those of modules without a version with one more colon. -/
theorem parse?_eq_some_iff :
    parse? text = some m ↔ m.Written ∧ (text = m.render ∨ m.version = none ∧ text = m.render ++ ":") := by
  refine ⟨written_of_parse?, ?_⟩
  obtain ⟨group, name, version, request⟩ := m
  rintro ⟨⟨hgroup, hname, hversion, rfl⟩, rfl | ⟨hnone, rfl⟩⟩
  · have hrender : render ⟨group, name, version, .targeting none⟩ =
        ":".intercalate (group :: name :: version.toList) := by
      cases version <;> simp [render, coordinates, String.append_assoc]
    have hgiven : version.bind (version? ·.toList) = version := by
      cases version with
      | none => rfl
      | some v => simp [version?, (hversion v rfl).1]
    rw [hrender, parse?_intercalate hgroup hname fun v hv => (hversion v hv).2, hgiven]
  · cases hnone
    have hrender : render ⟨group, name, none, .targeting none⟩ ++ ":" =
        ":".intercalate (group :: name :: (some "").toList) := by
      simp [render, coordinates, String.append_assoc]
    rw [hrender, parse?_intercalate hgroup hname (by simp)]
    rfl

end ModuleDependency

/-! ### Reading back -/

/-- Texts are read as paths of projects if they follow the grammar, and only then; such a path is written as it was
read, so no other text is read as it. What is read as the path of a task or as a module is read back as the same from
what it is written as. -/
theorem notations_read_back :
    (∀ raw, (∃ p, ProjectPath.parse raw = .ok p) ↔ raw = ":" ∨ SpellsDescent raw) ∧
    (∀ raw p, ProjectPath.parse raw = .ok p → p.render = raw) ∧
    (∀ raw raw' p, ProjectPath.parse raw = .ok p → ProjectPath.parse raw' = .ok p → raw = raw') ∧
    (∀ raw t, TaskPath.parse raw = .ok t → TaskPath.parse t.render = .ok t) ∧
    ∀ text m, ModuleDependency.parse? text = some m → ModuleDependency.parse? m.render = some m := by
  refine ⟨fun raw => ProjectPath.exists_parse_iff, fun raw p => ProjectPath.render_of_parse, ?_, ?_, ?_⟩
  · intro raw raw' p h h'
    rw [← ProjectPath.render_of_parse h, ← ProjectPath.render_of_parse h']
  · intro raw t h
    exact TaskPath.parse_render (TaskPath.written_of_parse h)
  · intro text m h
    exact ModuleDependency.parse?_eq_some_iff.2 ⟨(ModuleDependency.parse?_eq_some_iff.1 h).1, Or.inl rfl⟩

/-- A path, a task of the root project behind one colon too many, and a module with an empty version. -/
theorem notations_read_back_jar :
    SpellsDescent ":libs:core" ∧ (∀ raw, ProjectPath.parse raw = .ok ⟨["libs", "core"]⟩ → raw = ":libs:core") ∧
      ProjectPath.render ⟨["libs", "core"]⟩ = ":libs:core" ∧
      TaskPath.parse "::jar" = .ok ⟨.root, "jar"⟩ ∧ TaskPath.parse ":jar" = .ok ⟨.root, "jar"⟩ ∧
      ModuleDependency.parse? "g:lib:" = some ⟨"g", "lib", none, .targeting none⟩ ∧
      ModuleDependency.parse? "g:lib" = some ⟨"g", "lib", none, .targeting none⟩ := by
  obtain ⟨hgrammar, hwritten, hunique, htask, hmodule⟩ := notations_read_back
  have hcore : ProjectPath.parse ":libs:core" = .ok ⟨["libs", "core"]⟩ := by rfl
  have hjar : TaskPath.parse "::jar" = .ok ⟨.root, "jar"⟩ := by rfl
  have hlib : ModuleDependency.parse? "g:lib:" = some ⟨"g", "lib", none, .targeting none⟩ := by rfl
  have hdescent : SpellsDescent ":libs:core" := ((hgrammar _).1 ⟨_, hcore⟩).resolve_left (by decide)
  exact ⟨hdescent, fun raw h => hunique _ _ _ h hcore, hwritten _ _ hcore, hjar, htask _ _ hjar, hlib,
    hmodule _ _ hlib⟩

end ProjectGraph
