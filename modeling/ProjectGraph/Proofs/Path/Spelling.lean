import ProjectGraph.Proofs.Path.Written

/-!
Which texts are paths. The path of a project other than the root is one or more segments, each with a colon in front;
the root is a colon alone. The path of a task is the path of its project, or nothing for the root, and its name behind
one more colon.

What is read as the path of a project is written as it was, so it has one spelling. The path of a task has one, too,
if the task is not of the root project. A task of the root has a second one: the part in front of its last colon may be
empty, but it may also be the colon that is the root's own path (`root_task_spelt_twice`).
-/

namespace ProjectGraph

/-- A text that may stand between the colons of a path. -/
def LegalSegment (s : String) : Prop := s ≠ "" ∧ ∀ c ∈ s.toList, c ≠ ':' ∧ isBlank c = false

/-- One or more legal segments, each with a colon in front. -/
def SpellsDescent (text : String) : Prop :=
  ∃ segments : List String, segments ≠ [] ∧ (∀ s ∈ segments, LegalSegment s) ∧
    text = String.join (segments.map (":" ++ ·))

/-- A name behind a colon, with nothing in front of it or the segments of its project. -/
def SpellsTask (text : String) : Prop :=
  ∃ before name, text = before ++ ":" ++ name ∧ name ≠ "" ∧ ':' ∉ name.toList ∧ (before = "" ∨ SpellsDescent before)

theorem legalSegment_iff {s : String} : LegalSegment s ↔ ProjectPath.isSegment s.toList = true ∧ ':' ∉ s.toList := by
  rw [ProjectPath.isSegment_iff, LegalSegment]
  constructor
  · rintro ⟨hsome, hall⟩
    exact ⟨⟨hsome, fun c hc => (hall c hc).2⟩, fun hcolon => (hall ':' hcolon).1 rfl⟩
  · rintro ⟨⟨hsome, hblank⟩, hcolon⟩
    refine ⟨hsome, fun c hc => ⟨?_, hblank c hc⟩⟩
    rintro rfl
    exact hcolon hc

namespace ProjectPath

variable {raw : String} {p : ProjectPath}

theorem render_eq_join {segments : List String} (h : segments ≠ []) :
    render ⟨segments⟩ = String.join (segments.map (":" ++ ·)) := by
  apply String.toList_inj.1
  rw [toList_render h, String.toList_join, List.flatMap_map]
  simp

theorem written_iff {segments : List String} : Written ⟨segments⟩ ↔ ∀ s ∈ segments, LegalSegment s :=
  forall₂_congr fun _ _ => legalSegment_iff.symm

theorem spellsDescent_iff : SpellsDescent raw ↔ ∃ p, parse raw = .ok p ∧ p ≠ root := by
  constructor
  · rintro ⟨segments, hsome, hlegal, rfl⟩
    refine ⟨⟨segments⟩, parse_eq_ok_iff.2 ⟨written_iff.2 hlegal, render_eq_join hsome⟩, ?_⟩
    rintro h
    cases h
    exact hsome rfl
  · rintro ⟨⟨segments⟩, hparse, hroot⟩
    obtain ⟨hwritten, rfl⟩ := parse_eq_ok_iff.1 hparse
    have hsome : segments ≠ [] := fun h => hroot (congrArg mk h)
    exact ⟨segments, hsome, written_iff.1 hwritten, render_eq_join hsome⟩

/-- What can be read is a colon, or segments with a colon in front of each. -/
theorem exists_parse_iff : (∃ p, parse raw = .ok p) ↔ raw = ":" ∨ SpellsDescent raw := by
  rw [spellsDescent_iff]
  constructor
  · rintro ⟨p, hp⟩
    by_cases hroot : p = root
    · subst hroot
      exact Or.inl (render_of_parse hp).symm
    · exact Or.inr ⟨p, hp, hroot⟩
  · rintro (rfl | ⟨p, hp, _⟩)
    · exact ⟨root, rfl⟩
    · exact ⟨p, hp⟩

end ProjectPath

namespace TaskPath

variable {raw raw' : String} {t : TaskPath}

theorem render_of_root (h : t.project = .root) : t.render = ":" ++ t.name := by
  simp [render, h, ProjectPath.isRoot, ProjectPath.root]

theorem render_of_ne_root (h : t.project ≠ .root) : t.render = t.project.render ++ ":" ++ t.name := by
  rw [render, if_neg fun hroot => h (ProjectPath.isRoot_iff.1 hroot)]

/-- What stands in front of the name is what the project is written as. For the root it may also be nothing. -/
theorem eq_of_parse (h : parse raw = .ok t) :
    raw = t.project.render ++ ":" ++ t.name ∨ t.project = .root ∧ raw = ":" ++ t.name := by
  obtain ⟨before, rfl, _, _, ⟨rfl, hroot⟩ | hproject⟩ := parse_eq_ok_iff.1 h
  · exact Or.inr ⟨hroot, by simp⟩
  · rw [ProjectPath.render_of_parse hproject]
    exact Or.inl rfl

/-- A task that can be read is read from what it is written as. If it is a task of the root project, it is read from the
same with a colon in front as well, and no task is read from anything else. -/
theorem parse_iff_of_parse (h : parse raw = .ok t) :
    parse raw' = .ok t ↔ raw' = t.render ∨ t.project = .root ∧ raw' = ":" ++ t.render := by
  have hwritten := written_of_parse h
  constructor
  · intro h'
    by_cases hroot : t.project = .root
    · rw [render_of_root hroot]
      rcases eq_of_parse h' with hdouble | ⟨_, hsingle⟩
      · rw [hroot] at hdouble
        exact Or.inr ⟨hroot, hdouble.trans String.append_assoc⟩
      · exact Or.inl hsingle
    · rw [render_of_ne_root hroot]
      exact Or.inl ((eq_of_parse h').resolve_right fun h => hroot h.1)
  · rintro (rfl | ⟨hroot, rfl⟩)
    · exact parse_render hwritten
    · rw [render_of_root hroot, ← String.append_assoc]
      refine parse_eq_ok_iff.2 ⟨":", rfl, by simpa using hwritten.name_ne, hwritten.name_colon, Or.inr ?_⟩
      rw [hroot]
      rfl

/-- The texts of the grammar are read, and they are those that are written as they were. -/
theorem spellsTask_iff : SpellsTask raw ↔ ∃ t, parse raw = .ok t ∧ t.render = raw := by
  constructor
  · rintro ⟨before, name, rfl, hname, hcolon, rfl | hbefore⟩
    · refine ⟨⟨.root, name⟩, parse_eq_ok_iff.2 ⟨"", rfl, hname, hcolon, Or.inl ⟨rfl, rfl⟩⟩, ?_⟩
      rw [render_of_root rfl]
      simp
    · obtain ⟨project, hproject, hroot⟩ := ProjectPath.spellsDescent_iff.1 hbefore
      refine ⟨⟨project, name⟩, parse_eq_ok_iff.2 ⟨before, rfl, hname, hcolon, Or.inr hproject⟩, ?_⟩
      rw [render_of_ne_root hroot, ProjectPath.render_of_parse hproject]
  · rintro ⟨t, hparse, rfl⟩
    have hwritten := written_of_parse hparse
    have hname : t.name ≠ "" := by simpa using hwritten.name_ne
    by_cases hroot : t.project = .root
    · exact ⟨"", t.name, by simp [render_of_root hroot], hname, hwritten.name_colon, Or.inl rfl⟩
    · refine ⟨t.project.render, t.name, render_of_ne_root hroot, hname, hwritten.name_colon, Or.inr ?_⟩
      exact ProjectPath.spellsDescent_iff.2 ⟨t.project, ProjectPath.parse_render hwritten.project, hroot⟩

/-- What is read is written as it was exactly if its text is one of the grammar. -/
theorem spellsTask_iff_of_parse (h : parse raw = .ok t) : SpellsTask raw ↔ t.render = raw := by
  rw [spellsTask_iff]
  constructor
  · rintro ⟨t', h', hrender⟩
    rw [h] at h'
    cases h'
    exact hrender
  · exact fun hrender => ⟨t, h, hrender⟩

/-- A task is read from the texts of the grammar, which are written as they were, and from a name behind two colons.
What is read from one text is read from no other, unless it is a task of the root project: this is read from what it is
written as and from the same with a colon in front. -/
theorem texts_of_tasks (raw : String) :
    ((∃ t, parse raw = .ok t) ↔ SpellsTask raw ∨ ∃ name, raw = "::" ++ name ∧ name ≠ "" ∧ ':' ∉ name.toList) ∧
    ∀ t, parse raw = .ok t →
      (SpellsTask raw ↔ t.render = raw) ∧
      ∀ raw', parse raw' = .ok t ↔ raw' = t.render ∨ t.project = .root ∧ raw' = ":" ++ t.render := by
  refine ⟨⟨?_, ?_⟩, fun t h => ⟨spellsTask_iff_of_parse h, fun raw' => parse_iff_of_parse h⟩⟩
  · rintro ⟨t, h⟩
    rcases (parse_iff_of_parse h).1 h with hraw | ⟨hroot, hraw⟩
    · exact Or.inl ((spellsTask_iff_of_parse h).2 hraw.symm)
    · have hwritten := written_of_parse h
      refine Or.inr ⟨t.name, ?_, by simpa using hwritten.name_ne, hwritten.name_colon⟩
      rw [hraw, render_of_root hroot, ← String.append_assoc]
      rfl
  · rintro (h | ⟨name, rfl, hname, hcolon⟩)
    · obtain ⟨t, ht, _⟩ := spellsTask_iff.1 h
      exact ⟨t, ht⟩
    · exact ⟨⟨.root, name⟩, parse_eq_ok_iff.2 ⟨":", rfl, hname, hcolon, Or.inr rfl⟩⟩

theorem texts_of_tasks_jar :
    (∀ raw, parse raw = .ok ⟨⟨["lib"]⟩, "jar"⟩ ↔ raw = ":lib:jar") ∧
      (∀ raw, parse raw = .ok ⟨.root, "jar"⟩ ↔ raw = ":jar" ∨ raw = "::jar") ∧ SpellsTask ":jar" := by
  have hlib : parse ":lib:jar" = .ok ⟨⟨["lib"]⟩, "jar"⟩ := by rfl
  have hroot : parse ":jar" = .ok ⟨.root, "jar"⟩ := by rfl
  obtain ⟨_, hlibread⟩ := (texts_of_tasks ":lib:jar").2 _ hlib
  obtain ⟨hspelt, hrootread⟩ := (texts_of_tasks ":jar").2 _ hroot
  refine ⟨fun raw => (hlibread raw).trans ?_, fun raw => (hrootread raw).trans ?_, hspelt.2 rfl⟩
  · have hne : (⟨["lib"]⟩ : ProjectPath) ≠ .root := by decide
    exact ⟨fun h => h.resolve_right fun h => hne h.1, Or.inl⟩
  · exact or_congr_right (and_iff_right rfl)

/-- Two texts are read as one task, and the longer one is none of the grammar. -/
theorem root_task_spelt_twice :
    parse "::jar" = .ok ⟨.root, "jar"⟩ ∧ parse ":jar" = .ok ⟨.root, "jar"⟩ ∧
      render ⟨.root, "jar"⟩ ≠ "::jar" ∧ ¬ SpellsTask "::jar" := by
  have hdouble : parse "::jar" = .ok ⟨.root, "jar"⟩ := by rfl
  have hwritten : render ⟨.root, "jar"⟩ ≠ "::jar" := by decide
  exact ⟨hdouble, by rfl, hwritten, fun h => hwritten ((spellsTask_iff_of_parse hdouble).1 h)⟩

end TaskPath

end ProjectGraph
