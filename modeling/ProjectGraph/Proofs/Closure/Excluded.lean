import ProjectGraph.Proofs.Closure.Chains

/-!
What an exclude rule keeps out. A rule that every edge among the seeds carries is in force below every member edge, as
rules are only ever added on the way down. So a member that it matches can be nothing but a seed.
-/

namespace ProjectGraph

namespace Store

variable {s : Store} {transitive : Bool} {seeds : List Dependency} {members : List Member} {waiting : List Pending}
  {r : ExcludeRule}

/-- More rules exclude more. -/
theorem excluded_singleton {rules : List ExcludeRule} {d : Dependency} (hr : r ∈ rules)
    (h : s.excluded rules d = false) : s.excluded [r] d = false := by
  have hany : ∀ matched : ExcludeRule → Bool, rules.any matched = false → [r].any matched = false := by
    intro matched hnone
    rw [List.any_eq_false] at hnone ⊢
    intro x hx
    rw [List.mem_singleton.1 hx]
    exact hnone r hr
  cases d with
  | module m => exact hany _ h
  | project e =>
      simp only [excluded] at h ⊢
      split
      · rename_i p hp
        rw [hp] at h
        exact hany _ h
      · rfl

/-- Rules of all seed edges are in force below all member edges. -/
theorem InOrder.rule_mem (h : InOrder s transitive seeds members waiting)
    (hr : ∀ e, .project e ∈ seeds → r ∈ e.request.excludes) :
    ∀ m ∈ members, ∀ e, m.dependency = .project e → r ∈ m.rules := by
  refine h.induction ?_ ?_
  · rintro d hd e he
    cases (he : d = .project e)
    exact Pending.mem_rules_member.2 (Or.inr (hr e hd))
  · rintro m hm ih d hd e he
    obtain ⟨above, habove⟩ := exists_project_of_mem_kids hd
    exact Pending.mem_rules_member.2 (Or.inl (ih above habove))

/-- Nothing else than a seed is matched by a rule of all seed edges. -/
theorem InOrder.mem_seeds_or_not_excluded (h : InOrder s transitive seeds members waiting)
    (hr : ∀ e, .project e ∈ seeds → r ∈ e.request.excludes) :
    ∀ m ∈ members, m.dependency ∈ seeds ∨ s.excluded [r] m.dependency = false := by
  refine h.induction ?_ ?_
  · intro d hd
    exact Or.inl hd
  · rintro m hm _ d hd
    obtain ⟨e, he⟩ := exists_project_of_mem_kids hd
    obtain ⟨_, _, hadmitted⟩ := mem_kids.1 hd
    exact Or.inr (excluded_singleton (h.rule_mem hr m hm e he) hadmitted)

/-- A rule that all seed edges carry matches no member but seeds, however deep below them the member lies and by
whatever way it was reached: no module by its group and name, and no edge by those of its producer. -/
theorem excluded_at_every_depth {i : Intake} (hr : ∀ e, .project e ∈ i.dependencies → r ∈ e.request.excludes)
    {c : Closure} (h : (s.closure i).result = .ok c) {d : Dependency} (hd : d ∈ c.dependencies)
    (hnew : ∀ x ∈ i.dependencies, (d == x) = false) :
    (∀ m, d = .module m → r.matches m.group m.name = false) ∧
    ∀ e, d = .project e → ∃ p, s.project? e.producer = some p ∧ r.matches p.group p.name = false := by
  obtain ⟨members, hhistory, hc⟩ := history_of_closure h
  rw [hc] at hd
  obtain ⟨m, hm, rfl⟩ := List.mem_map.1 hd
  have hadmitted : s.excluded [r] m.dependency = false := by
    rcases hhistory.mem_seeds_or_not_excluded hr m hm with hseed | hadmitted
    · have hself := hnew m.dependency hseed
      rw [BEq.rfl] at hself
      cases hself
    · exact hadmitted
  constructor
  · intro n hn
    rw [hn] at hadmitted
    simpa [excluded] using hadmitted
  · intro e he
    obtain ⟨p, k, _, hsel, _⟩ := hhistory.resolves m hm e he
    obtain ⟨hp, _⟩ := selects_iff.1 hsel
    refine ⟨p, hp, ?_⟩
    rw [he] at hadmitted
    simpa [excluded, hp] using hadmitted

end Store

namespace Build

/-- The module two levels down is left out, and the library in between is a member. The library leads back to the
application by an edge without the rule. -/
theorem excluded_at_every_depth_shop :
    let rule : ExcludeRule := ⟨some "g", some "m"⟩
    let seed := (offerOf 2 "app").addExclude rule
    let i := (Intake.empty true).addDependencies [.project seed]
    (∀ e, .project e ∈ i.dependencies → rule ∈ e.request.excludes) ∧
    (∀ x ∈ i.dependencies, (Dependency.project (offerOf 1 "lib") == x) = false) ∧
    ∃ c, (shop.store.closure i).result = .ok c ∧
      c.dependencies = [.project seed, .project (offerOf 1 "lib")] ∧
      ∃ p, shop.store.project? ⟨1⟩ = some p ∧ rule.matches p.group p.name = false := by
  intro rule seed i
  have hr : ∀ e, .project e ∈ i.dependencies → rule ∈ e.request.excludes := by
    intro e he
    cases List.mem_singleton.1 he
    decide +kernel
  have hnew : ∀ x ∈ i.dependencies, (Dependency.project (offerOf 1 "lib") == x) = false := by decide +kernel
  have hwalk : (shop.store.closure i).result.toOption.map (·.dependencies) =
      some [.project seed, .project (offerOf 1 "lib")] := by
    decide +kernel
  obtain ⟨c, hok, hc⟩ := exists_eq_ok hwalk
  have hlib : .project (offerOf 1 "lib") ∈ c.dependencies := by
    rw [hc]
    simp
  obtain ⟨_, hproducer⟩ := Store.excluded_at_every_depth hr hok hlib hnew
  exact ⟨hr, hnew, c, hok, hc, hproducer _ rfl⟩

end Build

end ProjectGraph
