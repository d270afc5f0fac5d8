import ProjectGraph.Closure.Yield

/-!
Where an edge leads. An edge selects a configuration of its producer if the producer is there, holds a
configuration of the name, and this one is consumable; there is at most one. It depends on nothing of the edge
but its destination, and so does what lies below the edge. If nothing is selected, `NotSelected` says why.

A deprecated target raises a notice when it is selected, and nothing else does (`noticeOf`).

`atTarget` is what can be found at the target of a dependency. What lies below is one case of it; files and constraints
are others.
-/

namespace ProjectGraph

namespace Store

variable {s : Store} {e e' : Edge} {p p' : Project} {c c' : Configuration}

/-- The edge leads to this configuration of this project. -/
def Selects (s : Store) (e : Edge) (p : Project) (c : Configuration) : Prop :=
  s.producer e = .ok p ∧ (s.select e).result = .ok c

theorem selectFrom_eq_ok {target : String} :
    (selectFrom p target).result = .ok c ↔
      p.container.find? target = some c ∧ c.roles.consumable = true := by
  unfold selectFrom
  cases hfind : p.container.find target with
  | error x =>
      have hnone : p.container.find? target ≠ some c := by
        intro h
        rw [Container.find_eq_ok.2 h] at hfind
        cases hfind
      simp [Reporting.fail, hnone]
  | ok d =>
      have hsome := Container.find_eq_ok.1 hfind
      by_cases hd : d.roles.consumable
      · simp only [hsome, hd, if_true, Except.ok.injEq, Option.some.injEq]
        constructor
        · rintro rfl
          exact ⟨rfl, hd⟩
        · exact And.left
      · simp only [hsome, hd, Option.some.injEq]
        constructor
        · intro h
          cases h
        · rintro ⟨rfl, h⟩
          exact absurd h hd

theorem selects_iff :
    s.Selects e p c ↔ s.project? e.producer = some p ∧ p.container.find? e.target = some c ∧
      c.roles.consumable = true := by
  unfold Selects select
  rw [producer_eq_ok]
  constructor
  · rintro ⟨hp, hc⟩
    rw [producer_eq_ok.2 hp] at hc
    exact ⟨hp, selectFrom_eq_ok.1 hc⟩
  · rintro ⟨hp, hc⟩
    rw [producer_eq_ok.2 hp]
    exact ⟨hp, selectFrom_eq_ok.2 hc⟩

/-- Why an edge selects nothing, in the order in which it is noticed. -/
inductive NotSelected (s : Store) (e : Edge) : BuildError → Prop
  | gone (gone : s.project? e.producer = none) : NotSelected s e (.unknownProject e.path.render)
  | missing {p : Project} (there : s.project? e.producer = some p) (missing : p.container.find? e.target = none) :
      NotSelected s e (.noSuchConfiguration p.container.ownerName e.target)
  | notConsumable {p : Project} {c : Configuration} (there : s.project? e.producer = some p)
      (found : p.container.find? e.target = some c) (barred : c.roles.consumable = false) :
      NotSelected s e (.notConsumable p.displayName c.name)

/-- An edge that leads nowhere raises nothing. -/
theorem NotSelected.select_eq {x : BuildError} (h : s.NotSelected e x) : s.select e = .fail x := by
  cases h with
  | gone gone => simp only [select, producer, gone]
  | missing there missing =>
      simp only [select, producer_eq_ok.2 there, selectFrom, Container.find_eq_error.2 ⟨missing, rfl⟩]
  | notConsumable there found barred =>
      simp [select, producer_eq_ok.2 there, selectFrom, Container.find_eq_ok.2 found, barred]

theorem select_eq_error {x : BuildError} : (s.select e).result = .error x ↔ s.NotSelected e x := by
  refine ⟨?_, fun h => congrArg Reporting.result h.select_eq⟩
  intro h
  unfold select at h
  cases hp : s.project? e.producer with
  | none =>
      simp only [producer, hp] at h
      cases h
      exact .gone hp
  | some p =>
      rw [producer_eq_ok.2 hp] at h
      simp only [selectFrom] at h
      cases hfind : p.container.find e.target with
      | error y =>
          rw [hfind] at h
          cases h
          obtain ⟨hnone, rfl⟩ := Container.find_eq_error.1 hfind
          exact .missing hp hnone
      | ok c =>
          simp only [hfind] at h
          split at h
          · cases h
          · rename_i hbarred
            cases h
            exact .notConsumable hp (Container.find_eq_ok.1 hfind) (Bool.eq_false_iff.2 hbarred)

/-- An edge that leads somewhere raises what its target is deprecated with. -/
theorem Selects.select_eq (h : s.Selects e p c) : s.select e = ⟨consumptionNotices p.reporter c, .ok c⟩ := by
  obtain ⟨hp, hc, hconsumable⟩ := selects_iff.1 h
  rw [select, producer_eq_ok.2 hp]
  simp only [selectFrom, Container.find_eq_ok.2 hc, if_pos hconsumable]

theorem exists_selects_iff : (∃ p, s.Selects e p c) ↔ (s.select e).result = .ok c := by
  constructor
  · rintro ⟨p, h⟩
    exact h.2
  · intro h
    obtain ⟨p, hp, _⟩ := select_eq_ok h
    exact ⟨p, producer_eq_ok.2 hp, h⟩

theorem Selects.unique (h : s.Selects e p c) (h' : s.Selects e p' c') : p = p' ∧ c = c' := by
  obtain ⟨hp, hc⟩ := h
  obtain ⟨hp', hc'⟩ := h'
  rw [hp] at hp'
  rw [hc] at hc'
  cases hp'
  cases hc'
  exact ⟨rfl, rfl⟩

theorem Selects.mem_configurations (h : s.Selects e p c) : c ∈ p.container.configurations :=
  Container.mem_configurations_of_find? (selects_iff.1 h).2.1

theorem Selects.of_destination (h : s.Selects e p c) (heq : e.destination = e'.destination) :
    s.Selects e' p c := by
  obtain ⟨hproducer, htarget⟩ := Destination.mk.inj heq
  rw [selects_iff] at h ⊢
  rwa [← hproducer, ← htarget]

/-! ### What selecting raises -/

/-- The notice that a dependency raises when it is looked up: an edge, if it selects a deprecated target. -/
def noticeOf (s : Store) : Dependency → Option Raised
  | .module _ => none
  | .project e =>
    match s.producer e, (s.select e).result with
    | .ok p, .ok c => c.consumptionDeprecation.map fun replacements => ⟨p.reporter, .consumption c.name replacements⟩
    | _, _ => none

theorem Selects.noticeOf_eq (h : s.Selects e p c) :
    s.noticeOf (.project e) =
      c.consumptionDeprecation.map fun replacements => ⟨p.reporter, .consumption c.name replacements⟩ := by
  simp only [noticeOf, h.1, h.2]

theorem NotSelected.noticeOf_eq {x : BuildError} (h : s.NotSelected e x) : s.noticeOf (.project e) = none := by
  have hresult := select_eq_error.2 h
  cases hproducer : s.producer e <;> simp only [noticeOf, hproducer, hresult]

/-- Selecting raises one notice or none. -/
theorem notices_select (s : Store) (e : Edge) : (s.select e).notices = (s.noticeOf (.project e)).toList := by
  cases hresult : (s.select e).result with
  | error x =>
      have hnot := select_eq_error.1 hresult
      rw [hnot.select_eq, hnot.noticeOf_eq]
      rfl
  | ok c =>
      obtain ⟨p, hsel⟩ := exists_selects_iff.2 hresult
      rw [hsel.select_eq, hsel.noticeOf_eq]
      cases hc : c.consumptionDeprecation <;> simp [consumptionNotices, hc]

/-! ### What is found at the target -/

section AtTarget

variable {α : Type} {all : Container → Configuration → Except BuildError (List α)} {xs : List α}

/-- What the container of the producer finds for the selected configuration, if the edge leads anywhere. -/
def atTarget (s : Store) (all : Container → Configuration → Except BuildError (List α)) : Dependency → List α
  | .module _ => []
  | .project e =>
    match (s.select e).result, s.producer e with
    | .ok c, .ok p =>
      match all p.container c with
      | .ok xs => xs
      | .error _ => []
    | _, _ => []

theorem atTarget_eq (h : s.Selects e p c) (hxs : all p.container c = .ok xs) :
    s.atTarget all (.project e) = xs := by
  simp only [atTarget, h.1, h.2, hxs]

theorem mem_atTarget {d : Dependency} {x : α} :
    x ∈ s.atTarget all d ↔
      ∃ e p c xs, d = .project e ∧ s.Selects e p c ∧ all p.container c = .ok xs ∧ x ∈ xs := by
  constructor
  · intro h
    cases d with
    | module m => cases h
    | project e =>
        simp only [atTarget] at h
        split at h
        · rename_i c p hc hp
          split at h
          · rename_i xs hxs
            exact ⟨e, p, c, xs, rfl, ⟨hp, hc⟩, hxs, h⟩
          · cases h
        · cases h
  · rintro ⟨e, p, c, xs, rfl, hsel, hxs, hx⟩
    rwa [atTarget_eq hsel hxs]

end AtTarget

theorem below_eq_atTarget (d : Dependency) : s.below d = s.atTarget Container.allDependencies d := by
  cases d with
  | module m => rfl
  | project e =>
      simp only [below, atTarget]
      cases (s.select e).result with
      | error x => rfl
      | ok c =>
          cases s.producer e with
          | error x => rfl
          | ok p => cases hds : p.container.allDependencies c <;> simp only [hds]

theorem below_eq (h : s.Selects e p c) {ds : List Dependency} (hds : p.container.allDependencies c = .ok ds) :
    s.below (.project e) = ds := by
  rw [below_eq_atTarget, atTarget_eq h hds]

theorem mem_below {d : Dependency} :
    d ∈ s.below (.project e) ↔
      ∃ p c ds, s.Selects e p c ∧ p.container.allDependencies c = .ok ds ∧ d ∈ ds := by
  rw [below_eq_atTarget, mem_atTarget]
  constructor
  · rintro ⟨e', p, c, ds, he, h⟩
    cases he
    exact ⟨p, c, ds, h⟩
  · rintro ⟨p, c, ds, h⟩
    exact ⟨e, p, c, ds, rfl, h⟩

theorem mem_below_of_destination {d : Dependency} (h : d ∈ s.below (.project e))
    (heq : e.destination = e'.destination) : d ∈ s.below (.project e') := by
  obtain ⟨p, c, ds, hsel, hds, hd⟩ := mem_below.1 h
  exact mem_below.2 ⟨p, c, ds, hsel.of_destination heq, hds, hd⟩

end Store

end ProjectGraph
