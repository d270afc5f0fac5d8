import ProjectGraph.Proofs.Path.Preorder

/-!
The list of the projects of a build. It goes by the order of the paths, which is the order of their segments and not
that of the written paths. As the tree has the root and the project above each of its projects, the list is in pre-order:
each project is followed by all that is below it.
-/

namespace ProjectGraph

namespace Build

open ProjectPath

variable {b : Build} {p : Project} {path : ProjectPath} {requested : List ProjectPath}

/-- The paths of the projects as they are listed. -/
def listed (b : Build) : List ProjectPath := b.projects.map (·.path)

/-- The paths that are listed are those of the tree. -/
theorem Coherent.listed_eq (h : b.Coherent) : b.listed = b.tree.projects.keys := by
  rw [listed, projects, List.map_filterMap, ← Std.ExtTreeMap.map_fst_toList_eq_keys, ← List.filterMap_eq_map]
  refine List.filterMap_congr fun entry hentry => ?_
  obtain ⟨p, hp, hsound⟩ := h entry.1 entry.2 (Std.ExtTreeMap.mem_toList_iff_getElem?_eq_some.1 hentry)
  simp [hp, hsound.path_eq]

theorem Coherent.mem_projects (h : b.Coherent) :
    p ∈ b.projects ↔ ∃ id, b.tree.projects[p.path]? = some id ∧ b.store.project? id = some p := by
  rw [mem_projects_iff]
  constructor
  · rintro ⟨path, id, hid, hp⟩
    obtain ⟨q, hq, hsound⟩ := h path id hid
    rw [hp] at hq
    cases hq
    exact ⟨id, by rwa [hsound.path_eq], hp⟩
  · rintro ⟨id, hid, hp⟩
    exact ⟨p.path, id, hid, hp⟩

theorem Coherent.mem_listed (h : b.Coherent) : path ∈ b.listed ↔ path ∈ b.tree.projects := by
  rw [h.listed_eq, Std.ExtTreeMap.mem_keys]

theorem Coherent.listed_ordered (h : b.Coherent) : b.listed.Pairwise fun p q => compare p q = .lt := by
  rw [h.listed_eq]
  exact Std.ExtTreeMap.ordered_keys

theorem Reachable.inPreorder (h : b.Reachable) : InPreorder b.listed := by
  have hmem (path : ProjectPath) : path ∈ b.listed ↔ path ∈ b.tree.projects := h.coherent.mem_listed
  refine inPreorder_iff.2 ⟨h.coherent.listed_ordered, ?_, fun hs => ?_⟩
  · exact (hmem _).2 (mem_tree_iff.2 ⟨_, h.rooted.root⟩)
  · exact (hmem _).2 (h.rooted.above ((hmem _).1 hs))

/-- Whatever was asked for and changed before: the projects of the tree are listed in pre-order, and their paths have no
other pre-order. In particular a sibling whose name goes on from that of a project stands behind all that is below the
project, also where the written paths would have it stand in between. -/
theorem projects_in_preorder (h : Grown requested b) :
    (∀ p, p ∈ b.projects ↔ ∃ id, b.tree.projects[p.path]? = some id ∧ b.store.project? id = some p) ∧
    (∀ path, path ∈ b.listed ↔ path = .root ∨ ∃ q ∈ requested, path.segments <+: q.segments) ∧
    InPreorder b.listed ∧
    (∀ paths, InPreorder paths → (∀ path, path ∈ paths ↔ path ∈ b.listed) → paths = b.listed) ∧
    ∀ (segments : List String) (s t : String) (c : Char) (rest : List Char) (q : ProjectPath),
      t.toList = s.toList ++ c :: rest → ⟨segments ++ [t]⟩ ∈ b.listed → q ∈ b.listed → q.Below ⟨segments ++ [s]⟩ →
        Ahead b.listed q ⟨segments ++ [t]⟩ ∧ (c.toNat < ':'.toNat →
          scalars (render ⟨segments ++ [s]⟩) < scalars (render ⟨segments ++ [t]⟩) ∧
            scalars (render ⟨segments ++ [t]⟩) < scalars q.render) := by
  have hcoherent : b.Coherent := h.reachable.coherent
  have hpreorder : InPreorder b.listed := h.reachable.inPreorder
  refine ⟨fun p => hcoherent.mem_projects, fun path => ?_, hpreorder, ?_, ?_⟩
  · rw [hcoherent.mem_listed, h.mem_iff]
  · intro paths hpaths hmem
    exact eq_of_ordered hpaths.ordered hcoherent.listed_ordered hmem
  · intro segments s t c rest q ht hsibling hq hbelow
    have hsiblings : PartsAhead ⟨segments ++ [s]⟩ ⟨segments ++ [t]⟩ :=
      partsAhead_siblings segments (scalars_lt_of_append ht)
    have hparts : q.PartsAhead ⟨segments ++ [t]⟩ := hsiblings.further hbelow.1
    exact ⟨ahead_of_ordered hcoherent.listed_ordered hq hsibling hparts.compare_eq,
      fun hc => render_lt_render ht hc hbelow⟩

/-- A shop with a library, a project below that, and a sibling whose name goes on from that of the library. -/
def extended : Build :=
  ((start .empty "shop" ⟨0⟩).addProject ⟨["lib-extra"]⟩).1.addProject ⟨["lib", "core"]⟩ |>.1

theorem grown_extended : Grown [⟨["lib-extra"]⟩, ⟨["lib", "core"]⟩] extended :=
  have first := Grown.enroll _ (.start .empty "shop" ⟨0⟩) ((rooted_start _ _ _).enroll_eq ⟨["lib-extra"]⟩)
  first.enroll _ (first.reachable.rooted.enroll_eq ⟨["lib", "core"]⟩)

/-- The list that goes by the written paths is not in pre-order. -/
theorem projects_in_preorder_extended :
    Grown [⟨["lib-extra"]⟩, ⟨["lib", "core"]⟩] extended ∧
    extended.listed = [.root, ⟨["lib"]⟩, ⟨["lib", "core"]⟩, ⟨["lib-extra"]⟩] ∧
    Ahead extended.listed ⟨["lib", "core"]⟩ ⟨["lib-extra"]⟩ ∧ scalars ":lib-extra" < scalars ":lib:core" ∧
    ¬ InPreorder [.root, ⟨["lib"]⟩, ⟨["lib-extra"]⟩, ⟨["lib", "core"]⟩] := by
  have hlisted : extended.listed = [.root, ⟨["lib"]⟩, ⟨["lib", "core"]⟩, ⟨["lib-extra"]⟩] := by decide +kernel
  obtain ⟨_, _, _, hunique, hbehind⟩ := projects_in_preorder grown_extended
  obtain ⟨hahead, hwritten⟩ := hbehind [] "lib" "lib-extra" '-' ['e', 'x', 't', 'r', 'a'] ⟨["lib", "core"]⟩ (by decide)
    (by simp [hlisted]) (by simp [hlisted]) ⟨by decide, by decide⟩
  have hsame : [root, ⟨["lib"]⟩, ⟨["lib-extra"]⟩, ⟨["lib", "core"]⟩].Perm extended.listed := by
    rw [hlisted]
    decide
  refine ⟨grown_extended, hlisted, hahead, (hwritten (by decide)).2, fun hwrong => ?_⟩
  have heq := hunique _ hwrong fun _ => hsame.mem_iff
  rw [hlisted] at heq
  exact absurd heq (by decide)

end Build

end ProjectGraph
