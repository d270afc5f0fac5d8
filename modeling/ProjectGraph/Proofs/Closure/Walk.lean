import ProjectGraph.Closure
import ProjectGraph.Proofs.Selection
import ProjectGraph.Proofs.Worklist

/-!
The walk behind a closure, step by step. `walk_drains` says that the walk is the loop of a waiting list whose
step is `closureStep`: a dependency that was reached before is dropped, any other one is taken up, becomes a
member under the exclude rules in force there, and puts its kids to the waiting list.

Taking up an edge fails only where its target is not found or has no hierarchy. What it brings otherwise is said
by `takeUp_project_eq_ok`, and all later proofs go by this.
-/

namespace ProjectGraph

/-- A member of a closure, and the exclude rules in force below it. -/
structure Member where
  dependency : Dependency
  rules : List ExcludeRule

/-- The member that a waiting dependency becomes. -/
def Pending.member (p : Pending) : Member :=
  ⟨p.dependency, appendNew p.excludes p.dependency.request.excludes⟩

theorem Pending.mem_rules_member {p : Pending} {r : ExcludeRule} :
    r ∈ p.member.rules ↔ r ∈ p.excludes ∨ r ∈ p.dependency.request.excludes :=
  mem_appendNew

namespace Store

variable {s : Store} {transitive : Bool} {seeds : List Dependency}

/-- What a member adds to the waiting list: what lies below it and is not excluded there. -/
def kids (s : Store) (transitive : Bool) (m : Member) : List Dependency :=
  if m.dependency.request.transitive && transitive then
    (s.below m.dependency).filter (!s.excluded m.rules ·)
  else []

/-! ### One dependency -/

theorem handOver_eq {k : Container} {c : Configuration} {members : List Configuration}
    (h : k.hierarchy c = .ok members) (i : Intake) :
    handOver k c i =
      ((i.addDependencies (firstOccurrences (members.flatMap (·.dependencies)))).addConstraints
        (firstOccurrences (members.flatMap (·.constraints))), .ok ()) := by
  have hds : k.allDependencies c = .ok _ := Container.inherited_eq_ok.2 ⟨members, h, rfl⟩
  have hcs : k.allConstraints c = .ok _ := Container.inherited_eq_ok.2 ⟨members, h, rfl⟩
  simp only [handOver, hds, hcs]

/-- Expanding an edge whose target is selected cannot fail any more once the target has a hierarchy. -/
theorem expandSelected_eq {e : Edge} {p : Project} {c : Configuration} {members : List Configuration}
    (hp : s.producer e = .ok p) (hm : p.container.hierarchy c = .ok members) :
    s.expandSelected e c (.empty transitive) =
      (if e.request.transitive && transitive then
        ⟨transitive, firstOccurrences (members.flatMap (·.dependencies)),
          firstOccurrences (members.flatMap (·.constraints))⟩
      else .empty transitive, .ok ()) := by
  unfold expandSelected
  simp only [expands, hp, handOver_eq hm]
  split
  · rename_i h
    have hopen : (e.request.transitive && transitive) = true := h
    rw [if_pos hopen]
    simp [Intake.empty, Intake.addConstraints, Intake.addDependencies]
  · rename_i h
    have hshut : ¬(e.request.transitive && transitive) = true := h
    rw [if_neg hshut]

/-- Taking up an edge succeeds with what the hierarchy of the selected configuration holds. -/
theorem takeUp_project_eq_ok {e : Edge} {above : List ExcludeRule} {y : Yield}
    (h : (s.takeUp transitive ⟨.project e, above⟩).result = .ok y) :
    ∃ p c members, s.Selects e p c ∧ p.container.hierarchy c = .ok members ∧
      y = {
        files := (firstOccurrences (members.flatMap (·.artifacts))).map (·.file)
        constraints := if e.request.transitive && transitive then
          firstOccurrences (members.flatMap (·.constraints)) else []
        below := (s.kids transitive ⟨.project e, rulesBelow above e⟩).map (⟨·, rulesBelow above e⟩) } := by
  obtain ⟨c, hc, h⟩ := Reporting.bind_eq_ok.1 h
  obtain ⟨p, hp, h⟩ := Reporting.bind_eq_ok.1 h
  obtain ⟨artifacts, ha, h⟩ := Reporting.bind_eq_ok.1 h
  obtain ⟨members, hm, rfl⟩ := Container.inherited_eq_ok.1 ha
  have hds : p.container.allDependencies c = .ok _ := Container.inherited_eq_ok.2 ⟨members, hm, rfl⟩
  have hsel : s.Selects e p c := ⟨hp, hc⟩
  refine ⟨p, c, members, hsel, hm, ?_⟩
  simp only [expandSelected_eq hsel.1 hm] at h
  obtain ⟨_, _, h⟩ := Reporting.bind_eq_ok.1 h
  cases h
  simp only [kids, Dependency.request, below_eq hsel hds]
  split <;> rfl

theorem kids_module (s : Store) (transitive : Bool) (m : ModuleDependency) (rules : List ExcludeRule) :
    s.kids transitive ⟨.module m, rules⟩ = [] := by
  simp [kids, below]

/-- Taking up a dependency puts the kids of the member that it becomes to the waiting list. -/
theorem takeUp_below_eq {p : Pending} {y : Yield} (h : (s.takeUp transitive p).result = .ok y) :
    y.below = (s.kids transitive p.member).map (⟨·, p.member.rules⟩) := by
  obtain ⟨d, above⟩ := p
  cases d with
  | module m =>
      cases h
      simp [Pending.member, kids_module]
  | project e =>
      obtain ⟨_, _, _, _, _, rfl⟩ := takeUp_project_eq_ok h
      rfl

/-- Taking up a dependency raises what looking it up does, whether or not it fails further on. -/
theorem notices_takeUp (s : Store) (transitive : Bool) (p : Pending) :
    (s.takeUp transitive p).notices = (s.noticeOf p.dependency).toList := by
  obtain ⟨d, above⟩ := p
  cases d with
  | module m => rfl
  | project e =>
      refine (Reporting.notices_bind fun c => ?_).trans (s.notices_select e)
      refine (Reporting.notices_bind fun producer => ?_).trans (Reporting.notices_ofExcept _)
      refine (Reporting.notices_bind fun artifacts => ?_).trans (Reporting.notices_ofExcept _)
      exact (Reporting.notices_bind fun _ => rfl).trans (Reporting.notices_ofExcept _)

/-! ### The loop -/

/-- Deals with one dependency of the waiting list. -/
def closureStep (s : Store) (transitive : Bool) (c : Closure) (p : Pending) :
    Reporting (Closure × List Pending) :=
  if c.dependencies.contains p.dependency then pure (c, [])
  else do
    let y ← s.takeUp transitive p
    return ({
      dependencies := c.dependencies ++ [p.dependency]
      constraints := appendNew c.constraints y.constraints
      files := appendNew c.files y.files }, y.below)

theorem closureStep_eq_ok {c c' : Closure} {p : Pending} {added : List Pending}
    (h : (s.closureStep transitive c p).result = .ok (c', added)) :
    c.dependencies.contains p.dependency ∧ c' = c ∧ added = [] ∨
    c.dependencies.contains p.dependency = false ∧
      ∃ y, (s.takeUp transitive p).result = .ok y ∧ added = y.below ∧
        c' = {
          dependencies := c.dependencies ++ [p.dependency]
          constraints := appendNew c.constraints y.constraints
          files := appendNew c.files y.files } := by
  unfold closureStep at h
  split at h
  · rename_i hold
    cases h
    exact Or.inl ⟨hold, rfl, rfl⟩
  · rename_i hnew
    obtain ⟨y, hy, heq⟩ := Reporting.bind_eq_ok.1 h
    cases heq
    exact Or.inr ⟨Bool.eq_false_iff.2 hnew, y, hy, rfl, rfl⟩

theorem closureStep_eq_error {c : Closure} {p : Pending} {x : BuildError}
    (h : (s.closureStep transitive c p).result = .error x) :
    c.dependencies.contains p.dependency = false ∧ (s.takeUp transitive p).result = .error x := by
  unfold closureStep at h
  split at h
  · cases h
  · rename_i hnew
    rcases Reporting.bind_eq_error.1 h with h | ⟨y, _, h⟩
    · exact ⟨Bool.eq_false_iff.2 hnew, h⟩
    · cases h

/-- What was reached before is not looked up again. -/
theorem notices_closureStep (s : Store) (transitive : Bool) (c : Closure) (p : Pending) :
    (s.closureStep transitive c p).notices =
      if c.dependencies.contains p.dependency then [] else (s.noticeOf p.dependency).toList := by
  unfold closureStep
  split
  · rfl
  · exact (Reporting.notices_bind fun _ => rfl).trans (s.notices_takeUp transitive p)

theorem closure_add {reached : Reached s} {d : Dependency} {y : Yield} {answers : OfferAnswers s}
    (hnew : reached.dependencies.contains d = false) :
    (reached.add d y answers).closure = {
      dependencies := reached.closure.dependencies ++ [d]
      constraints := appendNew reached.closure.constraints y.constraints
      files := appendNew reached.closure.files y.files } := by
  rw [Distinct.contains_eq] at hnew
  simp [Reached.add, Reached.closure, hnew]

theorem walk_drains (s : Store) (transitive : Bool) (base : List Dependency)
    (closed : ∀ d ∈ s.declared, d ∈ base) (queue : Queue Pending)
    (within : ∀ p ∈ queue.toList, p.dependency ∈ base) (reached : Reached s) :
    Drains (s.closureStep transitive) queue.toList reached.closure
      (s.walk transitive base closed queue within reached) := by
  fun_induction walk s transitive base closed queue within reached with
  | case1 queue within reached hnext =>
      rw [Queue.next?_eq_none.1 hnext]
      exact .done _
  | case2 queue within reached p rest hnext hold ih =>
      -- Reached before: the step changes nothing and adds nothing.
      rw [Queue.toList_of_next? hnext]
      have hstep : s.closureStep transitive reached.closure p = ⟨[], .ok (reached.closure, [])⟩ := by
        rw [Distinct.contains_eq] at hold
        rw [closureStep, Reached.closure, if_pos hold]
        rfl
      refine .quietly hstep ?_
      rwa [List.append_nil]
  | case3 queue within reached p rest hnext hnew taken answers _ notices x htaken =>
      rw [Queue.toList_of_next? hnext]
      refine .fails ?_
      rw [Distinct.contains_eq] at hnew
      rw [closureStep, Reached.closure, if_neg hnew, ← taken.property, htaken]
      rfl
  | case4 queue within reached p rest hnext hnew taken answers _ notices y htaken ih =>
      -- What was kept of earlier answers is what taking up would give, so the answers drop out.
      rw [Queue.toList_of_next? hnext]
      rw [Queue.toList_append, closure_add (Bool.eq_false_iff.2 hnew)] at ih
      refine .goesOn ?_ ih
      rw [Distinct.contains_eq] at hnew
      rw [closureStep, if_neg (by simpa [Reached.closure] using hnew), ← taken.property, htaken]
      simp [Reporting.after]

/-- A closure is what working off the seeds gives. -/
theorem closure_drains (s : Store) (i : Intake) :
    Drains (s.closureStep i.transitive) (i.dependencies.map fun d => ⟨d, []⟩)
      ⟨[], firstOccurrences i.constraints, []⟩ (s.closure i) := by
  have hstart : (⟨.empty, .ofList i.constraints, .empty, ∅⟩ : Reached s).closure =
      ⟨[], firstOccurrences i.constraints, []⟩ := by
    simp [Reached.closure]
  have h := walk_drains s i.transitive (i.dependencies ++ s.declared) (fun _ h => List.mem_append_right _ h)
    (.ofList (i.dependencies.map fun d => ⟨d, []⟩))
    (fun p hp => by
      rw [Queue.toList_ofList] at hp
      obtain ⟨d, hd, rfl⟩ := List.mem_map.1 hp
      exact List.mem_append_left _ hd)
    ⟨.empty, .ofList i.constraints, .empty, ∅⟩
  simp only [Queue.toList_ofList, hstart] at h
  exact h

end Store

end ProjectGraph
