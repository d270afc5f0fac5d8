import ProjectGraph.Proofs.Build.Growth
import ProjectGraph.Proofs.Path.Written

/-!
Paths that are made in steps. A path comes from a text or is the root's, and from any path one may go down to a child
or up to the parent, as often as one likes.

Going down takes any name that is not empty and has no colon, and these are the paths that steps can make: those whose
written form can be cut into their segments again (`constructed_iff`). Reading wants more. It also rejects white space,
so a path is read back if no segment has any, and is rejected as a whole otherwise: reading refuses what going down has
let pass (`blank_child_not_read_back`).
-/

namespace ProjectGraph

namespace ProjectPath

variable {p q : ProjectPath} {name : String}

/-- The paths that can be made. -/
inductive Constructed : ProjectPath → Prop
  | root : Constructed root
  | parsed {raw : String} {p : ProjectPath} (read : parse raw = .ok p) : Constructed p
  | child {p q : ProjectPath} {name : String} (before : Constructed p) (down : p.child name = .ok q) : Constructed q
  | parent {p q : ProjectPath} (before : Constructed p) (up : p.parent? = some q) : Constructed q

/-- No segment has white space. -/
def Unblank (p : ProjectPath) : Prop := ∀ s ∈ p.segments, ∀ c ∈ s.toList, isBlank c = false

instance (p : ProjectPath) : Decidable p.Unblank :=
  decidable_of_iff (p.segments.all fun s => s.toList.all fun c => !isBlank c) (by simp [Unblank])

/-! ### Single steps -/

theorem child_eq_ok : p.child name = .ok q ↔ name ≠ "" ∧ ':' ∉ name.toList ∧ q = ⟨p.segments ++ [name]⟩ := by
  unfold child
  split
  · rename_i hbad
    simp only [Bool.or_eq_true, String.isEmpty_iff, List.contains_eq_mem, decide_eq_true_eq] at hbad
    simp only [reduceCtorEq, false_iff]
    rintro ⟨hname, hcolon, _⟩
    exact hbad.elim hname hcolon
  · rename_i hgood
    simp only [Bool.or_eq_true, String.isEmpty_iff, List.contains_eq_mem, decide_eq_true_eq, not_or] at hgood
    rw [Except.ok.injEq, eq_comm]
    exact ⟨fun h => ⟨hgood.1, hgood.2, h⟩, fun h => h.2.2⟩

theorem parent?_eq_some : p.parent? = some q ↔ ∃ s, p = ⟨q.segments ++ [s]⟩ := by
  constructor
  · intro h
    obtain rfl | ⟨segments, s, rfl⟩ := eq_root_or_append p
    · cases h
    · rw [parent?_append] at h
      cases h
      exact ⟨s, rfl⟩
  · rintro ⟨s, rfl⟩
    exact parent?_append q.segments s

theorem Separable.child (h : p.Separable) (down : p.child name = .ok q) : q.Separable := by
  obtain ⟨hname, hcolon, rfl⟩ := child_eq_ok.1 down
  intro s hs
  rcases List.mem_append.1 hs with hs | hs
  · exact h s hs
  · cases List.mem_singleton.1 hs
    exact ⟨hname, hcolon⟩

theorem Separable.parent (h : p.Separable) (up : p.parent? = some q) : q.Separable := by
  obtain ⟨s, rfl⟩ := parent?_eq_some.1 up
  exact fun t ht => h t (List.mem_append_left _ ht)

/-! ### All steps -/

theorem Constructed.separable (h : p.Constructed) : p.Separable := by
  induction h with
  | root => exact written_root.separable
  | parsed read => exact (written_of_parse read).separable
  | child before down ih => exact ih.child down
  | parent before up ih => exact ih.parent up

/-- The paths that can be made are those that can be cut. -/
theorem constructed_iff : p.Constructed ↔ p.Separable := by
  refine ⟨Constructed.separable, fun h => ?_⟩
  induction p using downwards with
  | root => exact .root
  | append segments s ih =>
      obtain ⟨hname, hcolon⟩ := h s (by simp)
      have habove : Separable ⟨segments⟩ := fun t ht => h t (List.mem_append_left _ ht)
      exact (ih habove).child (child_eq_ok.2 ⟨hname, hcolon, rfl⟩)

/-! ### Reading back -/

theorem Separable.all_isSegment_iff (h : p.Separable) : p.segments.all (isSegment ·.toList) = true ↔ p.Unblank := by
  rw [List.all_eq_true]
  refine forall₂_congr fun s hs => ?_
  rw [isSegment_iff, and_iff_right (h s hs).1]

/-- The segments are what stands between the colons; the root has none, and nothing stands behind its colon. -/
theorem Separable.filter_splitOn_render (h : p.Separable) :
    (p.render.toList.tail.splitOn ':').filter (· ≠ []) = p.segments.map String.toList := by
  obtain ⟨segments⟩ := p
  cases segments with
  | nil => rfl
  | cons s segments =>
      obtain ⟨rest, htext, hpieces⟩ := splitOn_render fun t ht => (h t ht).2
      rw [htext, List.tail_cons, hpieces, List.filter_eq_self]
      intro piece hpiece
      obtain ⟨t, ht, rfl⟩ := List.mem_map.1 hpiece
      simpa using (h t ht).1

theorem Separable.render_injective (hp : p.Separable) (hq : q.Separable) (h : p.render = q.render) : p = q := by
  have hsegments : p.segments.map String.toList = q.segments.map String.toList := by
    rw [← hp.filter_splitOn_render, ← hq.filter_splitOn_render, h]
  obtain ⟨segments⟩ := p
  obtain ⟨segments'⟩ := q
  exact congrArg mk (List.map_injective_iff.2 (fun _ _ => String.toList_inj.1) hsegments)

/-- What steps have made is read back exactly if none of its segments has white space, and is rejected as a whole
otherwise. In any case no two paths that steps can make are written alike. -/
theorem constructed_read_back (h : p.Constructed) :
    (parse p.render = .ok p ↔ p.Unblank) ∧
    (∀ x, parse p.render = .error x ↔ ¬ p.Unblank ∧ x = .badSegment p.render) ∧
    ∀ q : ProjectPath, q.Constructed → q.render = p.render → q = p := by
  have hread := parse_render_of_separable h.separable
  have hsegments := h.separable.all_isSegment_iff
  have hunique : ∀ q : ProjectPath, q.Constructed → q.render = p.render → q = p :=
    fun q hq => hq.separable.render_injective h.separable
  by_cases hunblank : p.Unblank
  · rw [if_pos (hsegments.2 hunblank)] at hread
    refine ⟨iff_of_true hread hunblank, fun x => ?_, hunique⟩
    rw [hread]
    exact iff_of_false nofun fun hx => hx.1 hunblank
  · rw [if_neg fun hall => hunblank (hsegments.1 hall)] at hread
    refine ⟨iff_of_false (by rw [hread]; exact nofun) hunblank, fun x => ?_, hunique⟩
    rw [hread, Except.error.injEq, and_iff_right hunblank, eq_comm]

/-- A café below a shop whose name has white space, and one below a shop whose name has none. -/
theorem constructed_read_back_shop :
    Constructed ⟨["shop", "café"]⟩ ∧ parse ":shop:café" = .ok ⟨["shop", "café"]⟩ ∧
      Constructed ⟨["book shop", "café"]⟩ ∧ parse ":book shop:café" = .error (.badSegment ":book shop:café") := by
  have hread : parse ":shop" = .ok ⟨["shop"]⟩ := by rfl
  have hdown : child root "book shop" = .ok ⟨["book shop"]⟩ := by rfl
  have hbelow (above : String) : child ⟨[above]⟩ "café" = .ok ⟨[above, "café"]⟩ := by rfl
  have hcafe : Constructed ⟨["shop", "café"]⟩ := .child (.parsed hread) (hbelow "shop")
  have hbook : Constructed ⟨["book shop", "café"]⟩ := .child (.child .root hdown) (hbelow "book shop")
  obtain ⟨hback, _, _⟩ := constructed_read_back hcafe
  obtain ⟨_, hrejected, _⟩ := constructed_read_back hbook
  exact ⟨hcafe, hback.2 (by decide), hbook, (hrejected _).2 ⟨by decide, rfl⟩⟩

/-- A name with white space is taken as a child's, but the path of the child is not read back. -/
theorem blank_child_not_read_back :
    root.child "book shop" = .ok ⟨["book shop"]⟩ ∧ Constructed ⟨["book shop"]⟩ ∧
      parse (render ⟨["book shop"]⟩) = .error (.badSegment ":book shop") := by
  have hdown : root.child "book shop" = .ok ⟨["book shop"]⟩ := by rfl
  exact ⟨hdown, .child .root hdown, by rfl⟩

end ProjectPath

end ProjectGraph
