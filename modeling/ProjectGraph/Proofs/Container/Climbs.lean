import ProjectGraph.Container.Hierarchy
import ProjectGraph.Proofs.Worklist.Taken
import Mathlib.Data.List.Nodup

/-!
How far the walk over a hierarchy goes. `Climbs` is the walk with what it does on the way: the parents that it looks up
and the configurations that it enters, whether or not it comes to an end without failure.

What is entered is registered, and no name is entered twice. So no more is entered than is registered, and no more is
looked up than the entered ones name as parents. Where the walk starts does not matter: the configuration may have been
replaced, renamed or removed since.
-/

namespace ProjectGraph

namespace Container

variable {k : Container} {visiting parents : List String} {entered : Entered} {lookups : Nat}
  {entries : List Configuration} {result : Except BuildError Entered}

/-- The walk looks up as many parents, enters these configurations in order, and comes to this result. -/
inductive Climbs (k : Container) :
    List String → Entered → List String → Nat → List Configuration → Except BuildError Entered → Prop
  | done (visiting : List String) (entered : Entered) : Climbs k visiting entered [] 0 [] (.ok entered)
  | missing {visiting : List String} {entered : Entered} {parent : String} {parents : List String} {x : BuildError}
      (notFound : k.find parent = .error x) : Climbs k visiting entered (parent :: parents) 1 [] (.error x)
  | cycle {visiting : List String} {entered : Entered} {parent : String} {parents : List String} {c : Configuration}
      (found : k.find parent = .ok c) (visited : visiting.contains c.name = true) :
      Climbs k visiting entered (parent :: parents) 1 [] (.error (.configurationCycle k.ownerName c.name))
  | known {visiting : List String} {entered : Entered} {parent : String} {parents : List String} {c : Configuration}
      {lookups : Nat} {entries : List Configuration} {result : Except BuildError Entered}
      (found : k.find parent = .ok c) (notVisited : visiting.contains c.name = false)
      (old : entered.contains c.name = true) (rest : Climbs k visiting entered parents lookups entries result) :
      Climbs k visiting entered (parent :: parents) (1 + lookups) entries result
  | fails {visiting : List String} {entered : Entered} {parent : String} {parents : List String} {c : Configuration}
      {lookups : Nat} {inside : List Configuration} {x : BuildError}
      (found : k.find parent = .ok c) (notVisited : visiting.contains c.name = false)
      (new : entered.contains c.name = false)
      (inner : Climbs k (c.name :: visiting) (entered.add c) c.extendsFrom lookups inside (.error x)) :
      Climbs k visiting entered (parent :: parents) (1 + lookups) (c :: inside) (.error x)
  | enters {visiting : List String} {entered entered' : Entered} {parent : String} {parents : List String}
      {c : Configuration} {lookups lookups' : Nat} {inside others : List Configuration}
      {result : Except BuildError Entered}
      (found : k.find parent = .ok c) (notVisited : visiting.contains c.name = false)
      (new : entered.contains c.name = false)
      (inner : Climbs k (c.name :: visiting) (entered.add c) c.extendsFrom lookups inside (.ok entered'))
      (rest : Climbs k visiting entered' parents lookups' others result) :
      Climbs k visiting entered (parent :: parents) (1 + lookups + lookups') (c :: (inside ++ others)) result

theorem climb_climbs (k : Container) (visiting : List String) (entered : Entered) (parents : List String) :
    ∃ lookups entries, Climbs k visiting entered parents lookups entries (k.climb visiting entered parents) := by
  fun_induction climb k visiting entered parents with
  | case1 visiting entered => exact ⟨_, _, .done visiting entered⟩
  | case2 visiting entered parent parents x notFound => exact ⟨_, _, .missing notFound⟩
  | case3 visiting entered parent parents c found visited => exact ⟨_, _, .cycle found visited⟩
  | case4 visiting entered parent parents c found notVisited old ih =>
      obtain ⟨lookups, entries, rest⟩ := ih
      exact ⟨_, _, .known found (Bool.eq_false_iff.2 notVisited) old rest⟩
  | case5 visiting entered parent parents c found notVisited new x hinner ih =>
      obtain ⟨lookups, inside, inner⟩ := ih
      rw [hinner] at inner
      exact ⟨_, _, .fails found (Bool.eq_false_iff.2 notVisited) (Bool.eq_false_iff.2 new) inner⟩
  | case6 visiting entered parent parents c found notVisited new entered' hinner ih₁ ih₂ =>
      obtain ⟨lookups, inside, inner⟩ := ih₁
      obtain ⟨lookups', others, rest⟩ := ih₂
      rw [hinner] at inner
      exact ⟨_, _, .enters found (Bool.eq_false_iff.2 notVisited) (Bool.eq_false_iff.2 new) inner rest⟩

namespace Climbs

/-- What was entered so far, and then what the walk enters. -/
theorem toList_eq (h : Climbs k visiting entered parents lookups entries result) {final : Entered}
    (hok : result = .ok final) : final.toList = entered.toList ++ entries := by
  induction h generalizing final with
  | done visiting entered =>
      cases hok
      rw [List.append_nil]
  | missing => cases hok
  | cycle => cases hok
  | known found notVisited old rest ih => exact ih hok
  | fails => cases hok
  | enters found notVisited new inner rest ihInner ihRest =>
      rw [ihRest hok, ihInner rfl, Entered.toList_add]
      simp

theorem registered (h : Climbs k visiting entered parents lookups entries result) :
    ∀ d ∈ entries, d ∈ k.configurations := by
  induction h with
  | done => simp
  | missing => simp
  | cycle => simp
  | known found notVisited old rest ih => exact ih
  | fails found notVisited new inner ih => exact List.forall_mem_cons.2 ⟨mem_configurations_of_find found, ih⟩
  | enters found notVisited new inner rest ihInner ihRest =>
      refine List.forall_mem_cons.2 ⟨mem_configurations_of_find found, fun d hd => ?_⟩
      exact (List.mem_append.1 hd).elim (ihInner d) (ihRest d)

/-- What is entered next keeps the names apart. -/
theorem nodup_add {c : Configuration} (h : (entered.toList.map (·.name)).Nodup)
    (new : entered.contains c.name = false) : ((entered.add c).toList.map (·.name)).Nodup := by
  rw [Entered.toList_add, List.map_append]
  refine List.nodup_append.2 ⟨h, by simp, ?_⟩
  intro name hname name' hname' heq
  obtain ⟨d, hd, rfl⟩ := List.mem_map.1 hname
  obtain rfl := List.mem_singleton.1 hname'
  have hold : entered.contains c.name = true := by
    rw [Entered.contains_eq, List.any_eq_true]
    exact ⟨d, hd, beq_iff_eq.2 heq⟩
  rw [new] at hold
  cases hold

/-- No name is entered twice. -/
theorem nodup (h : Climbs k visiting entered parents lookups entries result)
    (start : (entered.toList.map (·.name)).Nodup) : ((entered.toList ++ entries).map (·.name)).Nodup := by
  induction h with
  | done => rwa [List.append_nil]
  | missing => rwa [List.append_nil]
  | cycle => rwa [List.append_nil]
  | known found notVisited old rest ih => exact ih start
  | fails found notVisited new inner ih => simpa using ih (nodup_add start new)
  | enters found notVisited new inner rest ihInner ihRest =>
      -- What is entered below comes first, then what the other parents lead to.
      have hinner := ihInner (nodup_add start new)
      rw [← inner.toList_eq rfl] at hinner
      have hrest := ihRest hinner
      rw [inner.toList_eq rfl] at hrest
      simpa using hrest

/-- All that is looked up is named as a parent, at first or by what was entered. -/
theorem lookups_le (h : Climbs k visiting entered parents lookups entries result) :
    lookups ≤ parents.length + total (·.extendsFrom.length) entries := by
  induction h with
  | done => exact Nat.zero_le _
  | missing => simp only [List.length_cons, total]; omega
  | cycle => simp only [List.length_cons, total]; omega
  | known found notVisited old rest ih => simp only [List.length_cons]; omega
  | fails found notVisited new inner ih => simp only [List.length_cons, total]; omega
  | enters found notVisited new inner rest ihInner ihRest =>
      simp only [List.length_cons, total, total_append]
      omega

end Climbs

theorem length_names (k : Container) : k.names.length = k.configurations.length := by
  rw [names, configurations, List.length_map, Std.ExtTreeMap.length_keys, Std.ExtTreeMap.length_toList]

/-- From wherever it starts, the walk over a hierarchy enters each name once, and so no more than the start and what is
registered. -/
theorem hierarchy_climbs (k : Container) (c : Configuration) :
    ∃ lookups entries result, Climbs k [c.name] (.start c) c.extendsFrom lookups entries result ∧
      k.hierarchy c = result.map Entered.toList ∧ ((c :: entries).map (·.name)).Nodup ∧
      (c :: entries).length ≤ k.names.length + 1 ∧ lookups ≤ total (·.extendsFrom.length) (c :: entries) := by
  obtain ⟨lookups, entries, h⟩ := climb_climbs k [c.name] (.start c) c.extendsFrom
  have hnames : ((c :: entries).map (·.name)).Nodup := h.nodup (by simp)
  have hentries : entries.Nodup := (List.nodup_cons.1 (List.Nodup.of_map _ hnames)).2
  refine ⟨lookups, entries, _, h, rfl, hnames, ?_, h.lookups_le⟩
  rw [length_names]
  exact Nat.succ_le_succ (List.Nodup.length_le_of_subset hentries h.registered)

end Container

end ProjectGraph
