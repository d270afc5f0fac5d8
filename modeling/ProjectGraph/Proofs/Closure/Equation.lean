import ProjectGraph.Proofs.Build.Edges
import ProjectGraph.Proofs.Closure.History

/-!
The equation of a closure: its dependencies are the first occurrences of the seeds followed by the kids of each
of them, where the kids of a member depend on the exclude rules in force there. `Origin` says where a member
stands for the first time, and which rules are in force below it for that reason.
-/

namespace ProjectGraph

/-- `d` stands in `items`, and nothing in front of it there or in `earlier` is the same. -/
def FirstIn (earlier items : List Dependency) (d : Dependency) : Prop :=
  ∃ front back, items = front ++ d :: back ∧ ∀ x ∈ earlier ++ front, (x == d) = false

/-! ### Places in lists of pieces -/

theorem append_eq_append_cons {α : Type} {front back xs ys : List α} {x : α}
    (h : front ++ back = xs ++ x :: ys) :
    (∃ zs, front = xs ++ x :: zs) ∨ ∃ zs, xs = front ++ zs ∧ back = zs ++ x :: ys := by
  rcases List.append_eq_append_iff.1 h with ⟨zs, hxs, hback⟩ | ⟨zs, hfront, hx⟩
  · exact Or.inr ⟨zs, hxs, hback⟩
  · cases zs with
    | nil => exact Or.inr ⟨[], by simpa using hfront.symm, hx.symm⟩
    | cons z zs =>
        obtain ⟨rfl, _⟩ := List.cons.inj hx
        exact Or.inl ⟨zs, hfront⟩

/-- A place in what the items of a list give is a place in what one of them gives. -/
theorem flatMap_eq_append_cons {α β : Type} {f : α → List β} {l : List α} {xs ys : List β} {x : β}
    (h : l.flatMap f = xs ++ x :: ys) :
    ∃ before a after front back, l = before ++ a :: after ∧ f a = front ++ x :: back ∧
      xs = before.flatMap f ++ front := by
  induction l generalizing xs with
  | nil => simp at h
  | cons b l ih =>
      rw [List.flatMap_cons] at h
      rcases append_eq_append_cons h with ⟨zs, hb⟩ | ⟨zs, rfl, hl⟩
      · exact ⟨[], b, l, xs, zs, rfl, hb, rfl⟩
      · obtain ⟨before, a, after, front, back, rfl, ha, rfl⟩ := ih hl
        exact ⟨b :: before, a, after, front, back, rfl, ha, by simp⟩

namespace Store

variable {s : Store} {transitive : Bool} {seeds : List Dependency} {members front : List Member} {m : Member}

/-- Where a member stands for the first time, given the members in front of it, and the rules it has by that. -/
inductive Origin (s : Store) (transitive : Bool) (seeds : List Dependency) (front : List Member) (m : Member) :
    Prop
  | seed (first : FirstIn [] seeds m.dependency)
      (rules : ∀ r, r ∈ m.rules ↔ r ∈ m.dependency.request.excludes)
  | kid (before : List Member) (p : Member) (after : List Member) (parent : front = before ++ p :: after)
      (first : FirstIn (seeds ++ before.flatMap (s.kids transitive)) (s.kids transitive p) m.dependency)
      (rules : ∀ r, r ∈ m.rules ↔ r ∈ p.rules ∨ r ∈ m.dependency.request.excludes)

theorem InOrder.origin {waiting : List Pending} (h : InOrder s transitive seeds members waiting)
    {back : List Member} (hm : members = front ++ m :: back) : Origin s transitive seeds front m := by
  obtain ⟨earlier, p, later, harrivals, rfl, hnew⟩ := h.first front m back hm
  rcases append_eq_append_cons harrivals with ⟨zs, hseed⟩ | ⟨zs, rfl, hkid⟩
  · -- The first arrival is a seed.
    obtain ⟨seedsFront, rest, rfl, rfl, hrest⟩ := List.map_eq_append_iff.1 hseed
    obtain ⟨d, seedsBack, rfl, rfl, rfl⟩ := List.map_eq_cons_iff.1 hrest
    refine .seed ⟨seedsFront, seedsBack, rfl, ?_⟩ fun r => Pending.mem_rules_member.trans (by simp [Pending.member])
    intro x hx
    exact hnew ⟨x, []⟩ (List.mem_map_of_mem hx)
  · obtain ⟨before, q, after, kidsFront, kidsBack, hfront, hq, rfl⟩ := flatMap_eq_append_cons hkid
    obtain ⟨front', rest, hkids, rfl, hrest⟩ := List.map_eq_append_iff.1 hq
    obtain ⟨d, back', rfl, rfl, rfl⟩ := List.map_eq_cons_iff.1 hrest
    refine .kid before q after hfront ⟨front', back', hkids, ?_⟩ fun r => Pending.mem_rules_member
    intro x hx
    -- Whatever stands in front was put to the waiting list before.
    have harrived : x ∈ (seeds.map (⟨·, []⟩) ++ ((before.flatMap fun m => (s.kids transitive m).map
        (⟨·, m.rules⟩)) ++ front'.map (⟨·, q.rules⟩)) : List Pending).map (·.dependency) := by
      simpa [List.map_flatMap, Function.comp_def] using hx
    obtain ⟨p, hp, rfl⟩ := List.mem_map.1 harrived
    exact hnew p hp

/-- The dependencies of a closure solve the equation of first occurrences, each with the rules of its origin. -/
theorem closure_equation (s : Store) (transitive : Bool) (seeds : List Dependency) {c : Closure}
    (h : (s.closure ((Intake.empty transitive).addDependencies seeds)).result = .ok c) :
    ∃ members : List Member, c.dependencies = members.map (·.dependency) ∧
      c.dependencies = firstOccurrences (seeds ++ members.flatMap (s.kids transitive)) ∧
      (∀ front m back, members = front ++ m :: back → Origin s transitive seeds front m) ∧
      (∀ e, .project e ∈ c.dependencies → ∃ p k, s.Selects e p k ∧
        p.container.allDependencies k = .ok (s.below (.project e))) ∧
      c.dependencies.Pairwise fun d d' => (d' == d) = false := by
  obtain ⟨members, hhistory, hc⟩ := history_of_closure h
  have hequation := hc.trans hhistory.map_dependency_eq
  refine ⟨members, hc, hequation, fun front m back hm => hhistory.origin hm, ?_, ?_⟩
  · intro e he
    rw [hc] at he
    obtain ⟨m, hm, hme⟩ := List.mem_map.1 he
    obtain ⟨p, k, above, hsel, habove⟩ := hhistory.resolves m hm e hme
    have hds : p.container.allDependencies k = .ok _ := Container.inherited_eq_ok.2 ⟨above, habove, rfl⟩
    exact ⟨p, k, hsel, by rw [below_eq hsel hds, hds]⟩
  · rw [hequation]
    exact pairwise_firstOccurrences _

open Build in
theorem closure_equation_shop :
    let seeds := [.project (offerOf 2 "app")]
    ∃ c, (shop.store.closure ((Intake.empty true).addDependencies seeds)).result = .ok c ∧
      c.dependencies = [.project (offerOf 2 "app"), .project (offerOf 1 "lib"), .module moduleOfLib] ∧
      ∃ members : List Member, c.dependencies = members.map (·.dependency) ∧
        c.dependencies = firstOccurrences (seeds ++ members.flatMap (shop.store.kids true)) := by
  intro seeds
  have hwalk : (shop.store.closure ((Intake.empty true).addDependencies seeds)).result.toOption.map
      (·.dependencies) =
        some [.project (offerOf 2 "app"), .project (offerOf 1 "lib"), .module moduleOfLib] := by
    decide +kernel
  obtain ⟨c, hok, hc⟩ := exists_eq_ok hwalk
  obtain ⟨members, hmembers, hequation, _⟩ := closure_equation shop.store true seeds hok
  exact ⟨c, hok, hc, members, hmembers, hequation⟩

end Store

end ProjectGraph
