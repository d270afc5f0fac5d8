import ProjectGraph.Proofs.Closure.BreadthFirst
import ProjectGraph.Proofs.Container.Hierarchy
import ProjectGraph.Proofs.TaskSet.Reachability

/-!
How a closure fails. An edge leads nowhere if it selects nothing, or if what it selects has no hierarchy (`FailsWith`).
Taking up an edge fails exactly then and with that error: files, dependencies and constraints below an edge come from
one and the same hierarchy, so none of them is missing alone. So a closure fails exactly if an edge of the
breadth-first order leads nowhere, with the error of the first one that does.
-/

namespace ProjectGraph

namespace Store

variable {s : Store} {transitive : Bool} {e : Edge} {x y : BuildError} {ds : List Dependency}

/-! ### One edge -/

/-- Why an edge leads nowhere. A hierarchy is looked for when a configuration is selected. -/
inductive FailsWith (s : Store) (e : Edge) : BuildError → Prop
  | lookup {x : BuildError} (notSelected : s.NotSelected e x) : FailsWith s e x
  | hierarchy {p : Project} {c : Configuration} {x : BuildError} (selects : s.Selects e p c)
      (failure : p.container.hierarchy c = .error x) : FailsWith s e x

theorem fails_iff_failsWith : s.Fails e ↔ ∃ x, s.FailsWith e x := by
  constructor
  · rintro (⟨x, hx⟩ | ⟨p, c, x, hsel, hx⟩)
    · exact ⟨x, .lookup (select_eq_error.1 hx)⟩
    · exact ⟨x, .hierarchy hsel hx⟩
  · rintro ⟨x, hx | ⟨hsel, hx⟩⟩
    · exact Or.inl ⟨x, select_eq_error.2 hx⟩
    · exact Or.inr ⟨_, _, x, hsel, hx⟩

/-- Once the artifacts of a configuration are found, its expansion cannot fail, whatever receives it. -/
theorem expandSelected_eq_ok {p : Project} {c : Configuration} {artifacts : List Artifact}
    (hp : s.producer e = .ok p) (ha : p.container.allArtifacts c = .ok artifacts) (i : Intake) :
    (s.expandSelected e c i).2 = .ok () := by
  obtain ⟨members, hm, _⟩ := Container.inherited_eq_ok.1 ha
  unfold expandSelected
  split
  · simp only [hp, handOver_eq hm]
  · rfl

theorem expand_eq_ok {p : Project} {c : Configuration} {artifacts : List Artifact} (hsel : s.Selects e p c)
    (ha : p.container.allArtifacts c = .ok artifacts) (i : Intake) : (s.expand e i).2.result = .ok () := by
  obtain ⟨hp, hc⟩ := hsel
  unfold expand
  split
  · generalize s.select e = selected at hc ⊢
    obtain ⟨notices, result⟩ := selected
    cases hc
    exact expandSelected_eq_ok hp ha i
  · rfl

/-- Taking up an edge fails exactly if it leads nowhere. -/
theorem takeUp_project_eq_error {above : List ExcludeRule} :
    (s.takeUp transitive ⟨.project e, above⟩).result = .error x ↔ s.FailsWith e x := by
  constructor
  · intro h
    rcases Reporting.bind_eq_error.1 h with h | ⟨c, hc, h⟩
    · exact .lookup (select_eq_error.1 h)
    · obtain ⟨p, hsel⟩ := exists_selects_iff.2 hc
      rcases Reporting.bind_eq_error.1 h with h | ⟨q, hq, h⟩
      · rw [Reporting.result_ofExcept, hsel.1] at h
        cases h
      · rw [Reporting.result_ofExcept, hsel.1] at hq
        cases hq
        rcases Reporting.bind_eq_error.1 h with h | ⟨artifacts, ha, h⟩
        · exact .hierarchy hsel (Container.inherited_eq_error.1 h)
        · -- The artifacts are there, so nothing is left that could fail.
          have hexpanded := expandSelected_eq_ok hsel.1 ha (.empty transitive)
          generalize s.expandSelected e c (.empty transitive) = expanded at h hexpanded
          obtain ⟨intake, result⟩ := expanded
          cases hexpanded
          cases h
  · rintro (h | ⟨hsel, h⟩)
    · exact Reporting.bind_eq_error.2 (Or.inl (select_eq_error.2 h))
    · refine Reporting.bind_eq_error.2 (Or.inr ⟨_, hsel.2, ?_⟩)
      refine Reporting.bind_eq_error.2 (Or.inr ⟨_, hsel.1, ?_⟩)
      exact Reporting.bind_eq_error.2 (Or.inl (Container.inherited_eq_error.2 h))

theorem failsWith_of_takeUp {p : Pending} (h : (s.takeUp transitive p).result = .error x) :
    ∃ e, p.dependency = .project e ∧ s.FailsWith e x := by
  obtain ⟨d, above⟩ := p
  cases d with
  | module m => cases h
  | project e => exact ⟨e, rfl, takeUp_project_eq_error.1 h⟩

/-- An edge fails in one way only. -/
theorem FailsWith.unique (h : s.FailsWith e x) (h' : s.FailsWith e y) : x = y := by
  have hx : (s.takeUp false ⟨.project e, []⟩).result = .error x := takeUp_project_eq_error.2 h
  have hy : (s.takeUp false ⟨.project e, []⟩).result = .error y := takeUp_project_eq_error.2 h'
  rw [hx] at hy
  exact Except.error.inj hy

/-! ### The first edge that fails -/

/-- The first edge of the list that leads nowhere does so with this error. -/
inductive FirstFailure (s : Store) : List Dependency → BuildError → Prop
  | here {e : Edge} {ds : List Dependency} {x : BuildError} (failure : s.FailsWith e x) :
      FirstFailure s (.project e :: ds) x
  | later {d : Dependency} {ds : List Dependency} {x : BuildError}
      (leads : ∀ e y, d = .project e → ¬ s.FailsWith e y) (rest : FirstFailure s ds x) : FirstFailure s (d :: ds) x

namespace FirstFailure

theorem unique (h : s.FirstFailure ds x) (h' : s.FirstFailure ds y) : x = y := by
  induction h with
  | here failure =>
      cases h' with
      | here failure' => exact failure.unique failure'
      | later leads rest => exact absurd failure (leads _ _ rfl)
  | later leads rest ih =>
      cases h' with
      | here failure => exact absurd failure (leads _ _ rfl)
      | later leads' rest' => exact ih rest'

/-- Edges in front that lead somewhere do not matter. -/
theorem behind {front : List Dependency} (hfront : ∀ e y, .project e ∈ front → ¬ s.FailsWith e y)
    (h : s.FirstFailure ds x) : s.FirstFailure (front ++ ds) x := by
  induction front with
  | nil => exact h
  | cons d front ih =>
      refine .later ?_ (ih fun e y he => hfront e y (List.mem_cons_of_mem _ he))
      rintro e y rfl
      exact hfront e y List.mem_cons_self

end FirstFailure

/-- Where an edge fails, there is a first one that does. -/
theorem exists_firstFailure_iff : (∃ x, s.FirstFailure ds x) ↔ ∃ e x, .project e ∈ ds ∧ s.FailsWith e x := by
  constructor
  · rintro ⟨x, h⟩
    induction h with
    | @here e ds x failure => exact ⟨e, x, List.mem_cons_self, failure⟩
    | later _ _ ih =>
        obtain ⟨e, x, he, hx⟩ := ih
        exact ⟨e, x, List.mem_cons_of_mem _ he, hx⟩
  · rintro ⟨e, x, he, hx⟩
    induction ds with
    | nil => cases he
    | cons d ds ih =>
        by_cases hd : ∃ e' y, d = .project e' ∧ s.FailsWith e' y
        · obtain ⟨e', y, rfl, hy⟩ := hd
          exact ⟨y, .here hy⟩
        · have hleads : ∀ e' y, d = .project e' → ¬ s.FailsWith e' y := fun e' y hd' hy => hd ⟨e', y, hd', hy⟩
          rcases List.mem_cons.1 he with rfl | he
          · exact absurd hx (hleads e x rfl)
          · obtain ⟨y, hy⟩ := ih he
            exact ⟨y, .later hleads hy⟩

/-! ### The walk -/

theorem History.not_failsWith {seeds : List Dependency} {members : List Member} {waiting : List Pending}
    (h : History s transitive seeds members waiting) :
    ∀ e y, .project e ∈ members.map (·.dependency) → ¬ s.FailsWith e y := by
  intro e y he hy
  exact not_fails_iff.2 (h.resolves_of_mem he) (fails_iff_failsWith.2 ⟨y, hy⟩)

/-- The walk ends at the first edge of the breadth-first order that leads nowhere. By then all in front of it has raised
its notices, and so has the edge itself. -/
theorem closure_stops {i : Intake} (h : (s.closure i).result = .error x) :
    ∃ order front e back, InOrder s i.transitive i.dependencies order [] ∧
      order.map (·.dependency) = front ++ .project e :: back ∧
      (∀ e' y, .project e' ∈ front → ¬ s.FailsWith e' y) ∧ s.FailsWith e x ∧
      (s.closure i).notices = front.filterMap s.noticeOf ++ (s.noticeOf (.project e)).toList := by
  obtain ⟨p, rest, c, raised, ⟨⟨members, hhistory, hc⟩, rfl⟩, hstep, hnotices⟩ :=
    (closure_drains s i).failed_account (History.keepsAccount s i.transitive i.dependencies) []
      ⟨⟨[], .start, rfl⟩, rfl⟩ h
  obtain ⟨hnew, htaken⟩ := closureStep_eq_error hstep
  obtain ⟨e, he, hfailure⟩ := failsWith_of_takeUp htaken
  rw [notices_closureStep, hnew, he, hc] at hnotices
  rw [hc] at hnew
  -- Beyond the failure the order goes on as if the edge led to nothing.
  obtain ⟨more, horder⟩ := (hhistory.toInOrder.take hnew).exists_complete
  have hmember : p.member.dependency = .project e := he
  refine ⟨_, members.map (·.dependency), e, more.map (·.dependency), horder, ?_, hhistory.not_failsWith, hfailure,
    by simpa using hnotices⟩
  simp [hmember]

theorem firstFailure_of_closure {i : Intake} (h : (s.closure i).result = .error x) :
    ∃ order, InOrder s i.transitive i.dependencies order [] ∧ s.FirstFailure (order.map (·.dependency)) x := by
  obtain ⟨order, front, e, back, horder, hsplit, hfront, hfailure, _⟩ := closure_stops h
  refine ⟨order, horder, ?_⟩
  rw [hsplit]
  exact FirstFailure.behind hfront (.here hfailure)

/-- All that seeds lead to stands in one breadth-first order. A closure fails exactly if an edge of the order leads
nowhere, with the error of the first one that does, and holds the whole order otherwise. And once the artifacts of a
selected configuration were found, expanding the edge cannot fail any more. -/
theorem closure_fails_exactly (s : Store) (i : Intake) :
    (∃ order, InOrder s i.transitive i.dependencies order []) ∧
    (∀ order, InOrder s i.transitive i.dependencies order [] →
      ((∃ x, (s.closure i).result = .error x) ↔
        ∃ e x, .project e ∈ order.map (·.dependency) ∧ s.FailsWith e x) ∧
      (∀ x, (s.closure i).result = .error x ↔ s.FirstFailure (order.map (·.dependency)) x) ∧
      ∀ c, (s.closure i).result = .ok c → c.dependencies = order.map (·.dependency)) ∧
    ∀ e p c artifacts, s.Selects e p c → p.container.allArtifacts c = .ok artifacts →
      ∀ intake, (s.expandSelected e c intake).2 = .ok () ∧ (s.expand e intake).2.result = .ok () := by
  refine ⟨InOrder.start.exists_complete, ?_, ?_⟩
  · intro order horder
    have hfirst : ∀ x, (s.closure i).result = .error x → s.FirstFailure (order.map (·.dependency)) x := by
      intro x hx
      obtain ⟨order', horder', hfailure⟩ := firstFailure_of_closure hx
      rwa [horder.unique horder']
    have hwhole : ∀ c, (s.closure i).result = .ok c → c.dependencies = order.map (·.dependency) ∧
        ∀ e y, .project e ∈ order.map (·.dependency) → ¬ s.FailsWith e y := by
      intro c hc
      obtain ⟨members, hhistory, hmembers⟩ := history_of_closure hc
      cases horder.unique hhistory.toInOrder
      exact ⟨hmembers, hhistory.not_failsWith⟩
    have hiff : ∀ x, (s.closure i).result = .error x ↔ s.FirstFailure (order.map (·.dependency)) x := by
      intro x
      refine ⟨hfirst x, fun hx => ?_⟩
      cases hresult : (s.closure i).result with
      | ok c =>
          obtain ⟨e, y, he, hy⟩ := exists_firstFailure_iff.1 ⟨x, hx⟩
          exact absurd hy ((hwhole c hresult).2 e y he)
      | error y => rw [(hfirst y hresult).unique hx]
    refine ⟨?_, hiff, fun c hc => (hwhole c hc).1⟩
    rw [← exists_firstFailure_iff]
    exact exists_congr hiff
  · intro e p c artifacts hsel ha intake
    exact ⟨expandSelected_eq_ok hsel.1 ha intake, expand_eq_ok hsel ha intake⟩

end Store

namespace Build

/-- An edge to a configuration of the `number`-th project, which stands right below the root. -/
def edgeTo (number : Nat) (name target : String) : Edge := ⟨⟨number⟩, ⟨[name]⟩, true, .targeting (some target)⟩

/-- The application needs what extends itself, and the library what nobody offers. -/
def frayed : Build :=
  let b := ((start .empty "shop" ⟨0⟩).addProject ⟨["lib"]⟩).1
  let b := (b.addProject ⟨["app"]⟩).1
  let b := b.declare ⟨1⟩ (jarOf "lib" [.project (edgeTo 2 "app" "gone")])
  let b := b.declare ⟨1⟩ { Declaration.named "knot" with extendsFrom := ["knot"] }
  b.declare ⟨2⟩ (jarOf "app" [.project (offerOf 1 "lib"), .project (edgeTo 1 "lib" "knot")])

/-- Two edges lead nowhere, and the closure fails as the one that is nearer to the seed does. -/
theorem closure_fails_exactly_frayed :
    let i := (Intake.empty true).addDependencies [.project (offerOf 2 "app")]
    (∃ order, Store.InOrder frayed.store true i.dependencies order [] ∧
      frayed.store.FirstFailure (order.map (·.dependency)) (.configurationCycle "project ':lib'" "knot")) ∧
    ∃ p c artifacts, frayed.store.Selects (offerOf 1 "lib") p c ∧ p.container.allArtifacts c = .ok artifacts ∧
      artifacts.map (·.file.text) = ["lib.jar"] ∧
      ∀ intake, (frayed.store.expandSelected (offerOf 1 "lib") c intake).2 = .ok () := by
  intro i
  obtain ⟨⟨order, horder⟩, hfails, hexpands⟩ := Store.closure_fails_exactly frayed.store i
  obtain ⟨_, hfirst, _⟩ := hfails order horder
  constructor
  · exact ⟨order, horder, (hfirst _).1 (Container.eq_error_of_failure? (by decide +kernel))⟩
  · have hlib : (do
        let p ← frayed.store.project? ⟨1⟩
        let c ← p.container.find? "default"
        if c.roles.consumable then (p.container.allArtifacts c).toOption.map (·.map (·.file.text)) else none) =
          some ["lib.jar"] := by
      decide +kernel
    simp only [Option.bind_eq_bind, Option.bind_eq_some_iff, Option.ite_none_right_eq_some] at hlib
    obtain ⟨p, hp, c, hc, hconsumable, hfiles⟩ := hlib
    obtain ⟨artifacts, ha, hfiles⟩ := exists_eq_ok hfiles
    have hsel : frayed.store.Selects (offerOf 1 "lib") p c := Store.selects_iff.2 ⟨hp, hc, hconsumable⟩
    exact ⟨p, c, artifacts, hsel, ha, hfiles, fun intake => (hexpands _ p c artifacts hsel ha intake).1⟩

end Build

end ProjectGraph
