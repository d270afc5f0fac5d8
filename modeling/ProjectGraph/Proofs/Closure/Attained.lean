import ProjectGraph.Proofs.Closure.Chains
import ProjectGraph.Proofs.Closure.Failures
import ProjectGraph.Proofs.Closure.Files

/-!
What a closure can reach at all. `Attains` follows what lies below transitive edges, past all exclude rules and
whatever was reached before. Members of a closure are attained, and where no edge carries a rule and attained
dependencies that are the same are equal, all that is attained is a member.

A closure fails only at an attained edge that leads nowhere. So there is a closure if no attained edge fails, and,
where nothing attained is lost, only then.
-/

namespace ProjectGraph

namespace Store

variable {s : Store} {transitive : Bool} {seeds : List Dependency}

/-- From the seeds downwards, as long as the edges on the way and the walk itself are transitive. -/
inductive Attains (s : Store) (transitive : Bool) (seeds : List Dependency) : Dependency → Prop
  | seed {d : Dependency} (start : d ∈ seeds) : Attains s transitive seeds d
  | step {d next : Dependency} (before : Attains s transitive seeds d)
      (opened : d.request.transitive = true ∧ transitive = true) (below : next ∈ s.below d) :
      Attains s transitive seeds next

/-! ### Members are attained -/

theorem InOrder.attains {members : List Member} {waiting : List Pending}
    (h : InOrder s transitive seeds members waiting) : ∀ m ∈ members, Attains s transitive seeds m.dependency := by
  refine h.induction ?_ ?_
  · intro d hd
    exact .seed hd
  · intro m _ ih d hd
    obtain ⟨hopened, hbelow, _⟩ := mem_kids.1 hd
    exact .step ih hopened hbelow

theorem attains_of_mem {i : Intake} {c : Closure} (h : (s.closure i).result = .ok c) {d : Dependency}
    (hd : d ∈ c.dependencies) : Attains s i.transitive i.dependencies d := by
  obtain ⟨members, hhistory, hc⟩ := history_of_closure h
  rw [hc] at hd
  obtain ⟨m, hm, rfl⟩ := List.mem_map.1 hd
  exact hhistory.attains m hm

/-! ### What is attained becomes a member -/

/-- The rules below a member edge are none if no attained edge carries any. -/
theorem InOrder.rules_eq_nil {members : List Member} {waiting : List Pending}
    (h : InOrder s transitive seeds members waiting)
    (hplain : ∀ e, Attains s transitive seeds (.project e) → e.request.excludes = []) :
    ∀ m ∈ members, Attains s transitive seeds m.dependency →
      ∀ e, m.dependency = .project e → m.rules = [] := by
  refine h.induction ?_ ?_
  · intro d hd hattained e he
    cases (he : d = .project e)
    simp [Pending.member, Dependency.request, hplain e hattained]
  · intro m hm ih d hd hattained e he
    cases (he : d = .project e)
    obtain ⟨x, hx⟩ := exists_project_of_mem_kids hd
    have hrules : m.rules = [] := ih (h.attains m hm) x hx
    simp [Pending.member, Dependency.request, hrules, hplain e hattained]

theorem excluded_nil (s : Store) (d : Dependency) : s.excluded [] d = false := by
  cases d with
  | module m => rfl
  | project e =>
      simp only [excluded]
      split <;> rfl

/-- Where nothing is excluded and what is the same is equal, all that is attained is a member. -/
theorem mem_iff_attains {i : Intake} {c : Closure} (h : (s.closure i).result = .ok c)
    (hplain : ∀ e, Attains s i.transitive i.dependencies (.project e) → e.request.excludes = [])
    (hequal : ∀ d d', Attains s i.transitive i.dependencies d → Attains s i.transitive i.dependencies d' →
      (d == d') = true → d = d') {d : Dependency} :
    d ∈ c.dependencies ↔ Attains s i.transitive i.dependencies d := by
  refine ⟨attains_of_mem h, fun hd => ?_⟩
  obtain ⟨members, hhistory, hc⟩ := history_of_closure h
  have hrules := hhistory.rules_eq_nil hplain
  have harrives : ∀ p ∈ s.arrivals i.transitive i.dependencies members,
      Attains s i.transitive i.dependencies p.dependency → p.dependency ∈ c.dependencies := by
    intro p hp hattained
    obtain ⟨m, hm, hsame⟩ := hhistory.exists_mem_beq hp
    rw [hc, ← hequal m.dependency p.dependency (hhistory.attains m hm) hattained hsame]
    exact List.mem_map_of_mem hm
  induction hd with
  | seed start => exact harrives ⟨_, []⟩ (mem_arrivals.2 (Or.inl ⟨_, start, rfl⟩)) (.seed start)
  | @step d next before opened below ih =>
      rw [hc] at ih
      obtain ⟨m, hm, rfl⟩ := List.mem_map.1 ih
      have hadmitted : s.excluded m.rules next = false := by
        cases hdependency : m.dependency with
        | module n =>
            rw [hdependency] at below
            cases below
        | project e =>
            rw [hrules m hm before e hdependency]
            exact s.excluded_nil next
      have hkid : next ∈ s.kids i.transitive m := mem_kids.2 ⟨opened, below, hadmitted⟩
      exact harrives ⟨next, m.rules⟩ (mem_arrivals.2 (Or.inr ⟨m, hm, next, hkid, rfl⟩))
        (.step before opened below)

/-! ### Failure -/

theorem exists_closure_of_attains {i : Intake}
    (h : ∀ e, Attains s i.transitive i.dependencies (.project e) → ¬ s.Fails e) :
    ∃ c, (s.closure i).result = .ok c := by
  cases hresult : (s.closure i).result with
  | ok c => exact ⟨c, rfl⟩
  | error x =>
      exfalso
      obtain ⟨order, horder, hfirst⟩ := firstFailure_of_closure hresult
      obtain ⟨e, y, he, hy⟩ := exists_firstFailure_iff.1 ⟨x, hfirst⟩
      obtain ⟨m, hm, hme⟩ := List.mem_map.1 he
      have hattained := horder.attains m hm
      rw [hme] at hattained
      exact h e hattained (fails_iff_failsWith.2 ⟨y, hy⟩)

/-- Of each seed a closure holds one that is the same. -/
theorem exists_mem_closure_beq {i : Intake} {c : Closure} (h : (s.closure i).result = .ok c) {d : Dependency}
    (hd : d ∈ i.dependencies) : ∃ d' ∈ c.dependencies, (d' == d) = true := by
  obtain ⟨members, hhistory, hc⟩ := history_of_closure h
  obtain ⟨m, hm, hsame⟩ := hhistory.exists_mem_beq (mem_arrivals.2 (Or.inl ⟨d, hd, rfl⟩))
  exact ⟨m.dependency, hc ▸ List.mem_map_of_mem hm, hsame⟩

/-- The edges of a closure lead somewhere. -/
theorem not_fails_of_mem {i : Intake} {c : Closure} (h : (s.closure i).result = .ok c) {e : Edge}
    (he : .project e ∈ c.dependencies) : ¬ s.Fails e := by
  obtain ⟨members, hhistory, hc⟩ := history_of_closure h
  rw [hc] at he
  exact not_fails_iff.2 (hhistory.resolves_of_mem he)

end Store

namespace Build

variable {b : Build} {seeds : List Dependency} {transitive : Bool} {d : Dependency}

/-- If seeds and declared edges lead into the build, nothing else is attained. -/
theorem seed_or_edge_of_attains (hinto : ∀ e, .project e ∈ seeds ∨ e ∈ b.edges → e.Into b)
    (h : b.store.Attains transitive seeds d) : ∀ e, d = .project e → .project e ∈ seeds ∨ e ∈ b.edges := by
  induction h with
  | seed start =>
      rintro e rfl
      exact Or.inl start
  | @step d next before opened below ih =>
      rintro e rfl
      cases d with
      | module m => cases below
      | project x => exact Or.inr (mem_edges_of_mem_below (hinto x (ih x rfl)) below)

end Build

end ProjectGraph
