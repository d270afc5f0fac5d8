import ProjectGraph.Proofs.Build.Growth
import ProjectGraph.Proofs.OrderedLists
import ProjectGraph.Proofs.Path.Written

/-!
The order of paths and pre-order. One path is ahead of another if the other is below it, or if the two part somewhere and
it goes on to the sibling whose name comes first (`compare_eq_lt_iff`). So what stands between a path and something below
it is below it, too, and a list in this order keeps each path together with all that is below it.

The lists in pre-order are the lists in this order that have the root and the path above each of their paths, so there is
but one pre-order of given paths (`inPreorder_iff`). The order of the written paths is another one: where the name of a
sibling goes on with a character less than the colon, it puts that sibling between a path and what is below it
(`render_lt_render`).
-/

namespace ProjectGraph

/-- The Unicode scalars of a text. Names are ordered as these lists are. -/
def scalars (s : String) : List Nat := s.toList.map Char.toNat

theorem scalars_lt_of_lt {s t : String} (h : s < t) : scalars s < scalars t := List.map_lt (fun _ _ hlt => hlt) h

theorem compare_eq_lt_iff_scalars {s t : String} : compare s t = .lt ↔ scalars s < scalars t := by
  refine ⟨fun h => scalars_lt_of_lt (compareOfLessAndEq_eq_lt.1 h), fun h => ?_⟩
  cases hcompare : compare s t with
  | lt => rfl
  | eq =>
      cases Std.LawfulEqCmp.eq_of_compare hcompare
      exact absurd h (List.lt_irrefl _)
  | gt =>
      have hlt : compare t s = .lt := Std.OrientedCmp.lt_of_gt hcompare
      exact absurd h (List.lt_asymm (scalars_lt_of_lt (compareOfLessAndEq_eq_lt.1 hlt)))

/-- A text comes before what goes on from it. -/
theorem scalars_lt_of_append {s t : String} {c : Char} {rest : List Char} (h : t.toList = s.toList ++ c :: rest) :
    scalars s < scalars t := by
  have hlonger (l : List Nat) : l ++ [] < l ++ c.toNat :: rest.map Char.toNat :=
    List.append_left_lt (List.nil_lt_cons _ _)
  simpa only [scalars, h, List.map_append, List.map_cons, List.append_nil] using hlonger _

namespace ProjectPath

variable {p q r : ProjectPath} {a b s t : String} {as bs segments : List String} {paths : List ProjectPath}

/-- The other path stands on the way from the root to this one. -/
def Below (q p : ProjectPath) : Prop := p.segments <+: q.segments ∧ q ≠ p

/-- The ways to the two paths part somewhere, and there the first goes on to the sibling whose name comes first. -/
def PartsAhead (p q : ProjectPath) : Prop :=
  ∃ above s t, scalars s < scalars t ∧ above ++ [s] <+: p.segments ∧ above ++ [t] <+: q.segments

/-! ### The order of paths -/

theorem below_cons_iff : Below ⟨b :: bs⟩ ⟨a :: as⟩ ↔ a = b ∧ Below ⟨bs⟩ ⟨as⟩ := by
  simp only [Below, List.cons_prefix_cons, ne_eq, mk.injEq, List.cons.injEq]
  grind

theorem partsAhead_cons_iff :
    PartsAhead ⟨a :: as⟩ ⟨b :: bs⟩ ↔ scalars a < scalars b ∨ a = b ∧ PartsAhead ⟨as⟩ ⟨bs⟩ := by
  constructor
  · rintro ⟨above, s, t, hlt, hs, ht⟩
    cases above with
    | nil =>
        obtain ⟨rfl, _⟩ := List.cons_prefix_cons.1 hs
        obtain ⟨rfl, _⟩ := List.cons_prefix_cons.1 ht
        exact Or.inl hlt
    | cons c above =>
        obtain ⟨rfl, habove⟩ := List.cons_prefix_cons.1 hs
        obtain ⟨rfl, habove'⟩ := List.cons_prefix_cons.1 ht
        exact Or.inr ⟨rfl, above, s, t, hlt, habove, habove'⟩
  · rintro (hlt | ⟨rfl, above, s, t, hlt, hs, ht⟩)
    · exact ⟨[], a, b, hlt, by simp, by simp⟩
    · exact ⟨a :: above, s, t, hlt, List.cons_prefix_cons.2 ⟨rfl, hs⟩, List.cons_prefix_cons.2 ⟨rfl, ht⟩⟩

/-- A path comes before what is below it, and before what goes on to a later sibling where the two part. -/
theorem compare_eq_lt_iff : compare p q = .lt ↔ q.Below p ∨ p.PartsAhead q := by
  obtain ⟨as⟩ := p
  obtain ⟨bs⟩ := q
  change compareSegments as bs = .lt ↔ _
  induction as generalizing bs with
  | nil =>
      cases bs with
      | nil => simp [compareSegments, Below, PartsAhead]
      | cons b bs => simp [compareSegments, Below]
  | cons a as ih =>
      cases bs with
      | nil => simp [compareSegments, Below, PartsAhead]
      | cons b bs =>
          rw [below_cons_iff, partsAhead_cons_iff, compareSegments]
          split
          · rename_i heq
            subst heq
            simp only [ih, List.lt_irrefl, false_or, true_and]
          · rename_i hne
            simp [hne, compare_eq_lt_iff_scalars]

theorem Below.compare_eq (h : q.Below p) : compare p q = .lt := compare_eq_lt_iff.2 (Or.inl h)

theorem PartsAhead.compare_eq (h : p.PartsAhead q) : compare p q = .lt := compare_eq_lt_iff.2 (Or.inr h)

theorem below_append (segments : List String) (s : String) : Below ⟨segments ++ [s]⟩ ⟨segments⟩ :=
  ⟨List.prefix_append segments [s], by simp⟩

theorem partsAhead_siblings (segments : List String) (h : scalars s < scalars t) :
    PartsAhead ⟨segments ++ [s]⟩ ⟨segments ++ [t]⟩ :=
  ⟨segments, s, t, h, List.prefix_rfl, List.prefix_rfl⟩

/-- What parts from a path stays apart from it further down. -/
theorem PartsAhead.further (h : p.PartsAhead q) (hr : p.segments <+: r.segments) : r.PartsAhead q := by
  obtain ⟨above, s, t, hlt, hs, ht⟩ := h
  exact ⟨above, s, t, hlt, hs.trans hr, ht⟩

/-- What comes between a path and something below it is below it. -/
theorem Below.of_between (h : r.Below p) (hpq : compare p q = .lt) (hqr : compare q r = .lt) : q.Below p := by
  rcases compare_eq_lt_iff.1 hpq with hbelow | hparts
  · exact hbelow
  · exact absurd (hparts.further h.1).compare_eq (Std.OrientedCmp.not_lt_of_lt hqr)

theorem compare_root_ne_lt (p : ProjectPath) : compare p root ≠ .lt := by
  intro h
  rcases compare_eq_lt_iff.1 h with ⟨hstart, hne⟩ | ⟨above, s, t, _, _, ht⟩
  · obtain ⟨segments⟩ := p
    exact hne (congrArg mk (List.prefix_nil.1 hstart)).symm
  · simp [root] at ht

/-! ### Pre-order -/

/-- The paths of a tree in pre-order, each once: behind each path comes all that is below it, siblings by their names. -/
structure InPreorder (paths : List ProjectPath) : Prop where
  nodup : paths.Nodup
  root_first : paths.head? = some .root
  above_ahead : ∀ {segments : List String} {s : String}, ⟨segments ++ [s]⟩ ∈ paths →
    Ahead paths ⟨segments⟩ ⟨segments ++ [s]⟩
  /-- What is below a path stands in one block directly behind it. -/
  block : ∀ {p : ProjectPath}, p ∈ paths → ∃ before below after, paths = before ++ p :: (below ++ after) ∧
    ∀ q, q ∈ below ↔ q ∈ paths ∧ q.Below p
  siblings_ahead : ∀ {segments : List String} {s t : String}, ⟨segments ++ [s]⟩ ∈ paths → ⟨segments ++ [t]⟩ ∈ paths →
    scalars s < scalars t → Ahead paths ⟨segments ++ [s]⟩ ⟨segments ++ [t]⟩

/-- In a list in order what is below a path stands in one block behind it. -/
theorem exists_block_of_ordered (h : paths.Pairwise fun p q => compare p q = .lt) (hp : p ∈ paths) :
    ∃ before below after, paths = before ++ p :: (below ++ after) ∧ ∀ q, q ∈ below ↔ q ∈ paths ∧ q.Below p := by
  obtain ⟨before, rest, rfl⟩ := List.append_of_mem hp
  obtain ⟨_, hbehind, _⟩ := List.pairwise_append.1 h
  obtain ⟨hfirst, hrest⟩ := List.pairwise_cons.1 hbehind
  have hconvex : rest.Pairwise fun q r => r.Below p → q.Below p :=
    hrest.imp_of_mem fun hq _ hqr hr => hr.of_between (hfirst _ hq) hqr
  obtain ⟨below, after, rfl, hbelow, hafter⟩ := exists_append_of_pairwise hconvex
  refine ⟨before, below, after, rfl, fun q => ⟨fun hq => ⟨by simp [hq], hbelow q hq⟩, ?_⟩⟩
  rintro ⟨hq, hqp⟩
  have hq : q ∈ below ++ after := (Ahead.iff_mem (nodup_of_ordered h)).1 (ahead_of_ordered h hp hq hqp.compare_eq)
  exact (List.mem_append.1 hq).resolve_right fun hq => hafter q hq hqp

theorem inPreorder_of_ordered (h : paths.Pairwise fun p q => compare p q = .lt) (hroot : root ∈ paths)
    (habove : ∀ {segments : List String} {s : String}, ⟨segments ++ [s]⟩ ∈ paths → ⟨segments⟩ ∈ paths) :
    InPreorder paths where
  nodup := nodup_of_ordered h
  root_first := by
    cases paths with
    | nil => cases hroot
    | cons first rest =>
        rcases List.mem_cons.1 hroot with rfl | hroot
        · rfl
        · exact absurd ((List.pairwise_cons.1 h).1 _ hroot) (compare_root_ne_lt first)
  above_ahead hs := ahead_of_ordered h (habove hs) hs (below_append _ _).compare_eq
  block := exists_block_of_ordered h
  siblings_ahead hs ht hst := ahead_of_ordered h hs ht (partsAhead_siblings _ hst).compare_eq

namespace InPreorder

theorem mem_of_prefix (h : InPreorder paths) (hq : q ∈ paths) (hpq : p.segments <+: q.segments) : p ∈ paths := by
  obtain ⟨segments⟩ := p
  induction q using downwards with
  | root =>
      cases List.prefix_nil.1 hpq
      exact hq
  | append above s ih =>
      rcases List.prefix_concat_iff.1 hpq with heq | hstart
      · cases heq
        exact hq
      · exact ih (h.above_ahead hq).mem_left hstart

theorem ahead_of_below (h : InPreorder paths) (hp : p ∈ paths) (hq : q ∈ paths) (hqp : q.Below p) :
    Ahead paths p q := by
  obtain ⟨before, below, after, rfl, hbelow⟩ := h.block hp
  rw [Ahead.iff_mem h.nodup]
  exact List.mem_append_left after ((hbelow q).2 ⟨hq, hqp⟩)

/-- What stands behind a path and is not below it stands behind all that is below it. -/
theorem ahead_of_not_below (h : InPreorder paths) (hpr : Ahead paths p r) (hrp : ¬ r.Below p) (hq : q ∈ paths)
    (hqp : q.Below p) : Ahead paths q r := by
  obtain ⟨before, below, after, rfl, hbelow⟩ := h.block hpr.mem_left
  have hr : r ∈ below ++ after := (Ahead.iff_mem h.nodup).1 hpr
  have hafter : r ∈ after := (List.mem_append.1 hr).resolve_left fun hr => hrp ((hbelow r).1 hr).2
  have hq : q ∈ below := (hbelow q).2 ⟨hq, hqp⟩
  have hbehind : Ahead (below ++ after) q r := (List.singleton_sublist.2 hq).append (List.singleton_sublist.2 hafter)
  exact hbehind.of_sublist ((List.sublist_cons_self p _).trans (List.sublist_append_right before _))

/-- Pre-order follows the order of paths. -/
theorem ahead_of_compare (h : InPreorder paths) (hp : p ∈ paths) (hq : q ∈ paths) (hpq : compare p q = .lt) :
    Ahead paths p q := by
  rcases compare_eq_lt_iff.1 hpq with hbelow | ⟨above, s, t, hst, hs, ht⟩
  · exact h.ahead_of_below hp hq hbelow
  · -- The earlier sibling stands ahead of the later one, so its block does, and the later one ahead of its own block.
    have hsiblings := h.siblings_ahead (h.mem_of_prefix hp hs) (h.mem_of_prefix hq ht) hst
    have hapart : ¬ Below ⟨above ++ [t]⟩ ⟨above ++ [s]⟩ := by
      rintro ⟨hstart, hne⟩
      have heq : above ++ [s] = above ++ [t] := hstart.eq_of_length (by simp)
      exact hne (congrArg ProjectPath.mk heq.symm)
    have hsibling : Ahead paths p ⟨above ++ [t]⟩ := by
      by_cases heq : p = ⟨above ++ [s]⟩
      · rwa [heq]
      · exact h.ahead_of_not_below hsiblings hapart hp ⟨hs, heq⟩
    by_cases heq : q = ⟨above ++ [t]⟩
    · rwa [heq]
    · exact hsibling.trans h.nodup (h.ahead_of_below hsibling.mem_right hq ⟨ht, heq⟩)

theorem ordered (h : InPreorder paths) : paths.Pairwise fun p q => compare p q = .lt := by
  rw [List.pairwise_iff_forall_sublist]
  intro p q hpq
  change Ahead paths p q at hpq
  cases hcompare : compare p q with
  | lt => rfl
  | eq =>
      cases Std.LawfulEqCmp.eq_of_compare hcompare
      exact absurd hpq (Ahead.irrefl h.nodup)
  | gt =>
      have hqp : Ahead paths q p := h.ahead_of_compare hpq.mem_right hpq.mem_left (Std.OrientedCmp.lt_of_gt hcompare)
      exact absurd hqp (hpq.asymm h.nodup)

end InPreorder

/-- Pre-order is the order of paths, where the root is listed and the path above each listed one. -/
theorem inPreorder_iff : InPreorder paths ↔ (paths.Pairwise fun p q => compare p q = .lt) ∧ root ∈ paths ∧
    ∀ {segments : List String} {s : String}, ⟨segments ++ [s]⟩ ∈ paths → ⟨segments⟩ ∈ paths :=
  ⟨fun h => ⟨h.ordered, List.mem_of_head? h.root_first, fun hs => (h.above_ahead hs).mem_left⟩,
    fun ⟨h, hroot, habove⟩ => inPreorder_of_ordered h hroot habove⟩

/-! ### The order of written paths -/

/-- By what is written, a sibling whose name goes on with a character less than the colon comes between a path and all
that is below it. -/
theorem render_lt_render {c : Char} {rest : List Char} (ht : t.toList = s.toList ++ c :: rest)
    (hc : c.toNat < ':'.toNat) (hq : q.Below ⟨segments ++ [s]⟩) :
    scalars (render ⟨segments ++ [s]⟩) < scalars (render ⟨segments ++ [t]⟩) ∧
      scalars (render ⟨segments ++ [t]⟩) < scalars q.render := by
  obtain ⟨⟨below, hbelow⟩, hne⟩ := hq
  obtain ⟨qsegments⟩ := q
  subst hbelow
  cases below with
  | nil => exact absurd (congrArg mk (List.append_nil _)) hne
  | cons u below =>
      have hsibling : (render ⟨segments ++ [t]⟩).toList = (render ⟨segments ++ [s]⟩).toList ++ c :: rest := by
        simp [toList_render, ht]
      have hbelow : (render ⟨segments ++ [s] ++ u :: below⟩).toList =
          (render ⟨segments ++ [s]⟩).toList ++ ':' :: (u.toList ++ below.flatMap fun s => ':' :: s.toList) := by
        simp [toList_render]
      refine ⟨scalars_lt_of_append hsibling, ?_⟩
      simp only [scalars, hsibling, hbelow, List.map_append, List.map_cons]
      exact List.append_left_lt (List.cons_lt_cons_iff.2 (Or.inl hc))

end ProjectPath

end ProjectGraph
