import ProjectGraph.Proofs.Closure.Failures
import ProjectGraph.Proofs.Closure.Gathered

/-!
Expanding an edge is all or nothing. What receives the dependencies and constraints may be anything that takes them
in one by one and does nothing else; a `Recipient` says how, and the functions on intakes are the case of an intake
(`expand_eq_recipient`), which takes in each of the two lists at once.

Dependencies are handed over before the constraints are looked for, so a failure in between would leave the
recipient with half of it. There is none: both come from one and the same hierarchy (`Recipient.handOver_cases`).
-/

namespace ProjectGraph

/-- How something takes in dependencies and constraints. -/
structure Recipient (σ : Type) where
  /-- Whether it wants the dependencies of dependencies. -/
  transitive : σ → Bool
  addDependency : σ → Dependency → σ
  addConstraint : σ → Constraint → σ

namespace Recipient

variable {σ : Type} {r : Recipient σ} {s : Store} {e : Edge} {p : Project} {c : Configuration} {x : σ}

/-- Takes in dependencies in order, then constraints in order, and nothing else. -/
def take (r : Recipient σ) (ds : List Dependency) (cs : List Constraint) (x : σ) : σ :=
  cs.foldl r.addConstraint (ds.foldl r.addDependency x)

/-- Whether anything is handed over. -/
def expands (r : Recipient σ) (e : Edge) (x : σ) : Bool := e.request.transitive && r.transitive x

/-- Hands over the dependencies, then the constraints. What was handed over before a failure stays. -/
def handOver (r : Recipient σ) (k : Container) (c : Configuration) (x : σ) : σ × Except BuildError Unit :=
  match k.allDependencies c with
  | .error failure => (x, .error failure)
  | .ok ds =>
    match k.allConstraints c with
    | .error failure => (ds.foldl r.addDependency x, .error failure)
    | .ok cs => (cs.foldl r.addConstraint (ds.foldl r.addDependency x), .ok ())

/-- Expands an edge whose target configuration is selected already. -/
def expandSelected (r : Recipient σ) (s : Store) (e : Edge) (c : Configuration) (x : σ) :
    σ × Except BuildError Unit :=
  if r.expands e x then
    match s.producer e with
    | .error failure => (x, .error failure)
    | .ok p => r.handOver p.container c x
  else (x, .ok ())

/-- Expands an edge. -/
def expand (r : Recipient σ) (s : Store) (e : Edge) (x : σ) : σ × Reporting Unit :=
  if r.expands e x then
    match s.select e with
    | ⟨notices, .error failure⟩ => (x, ⟨notices, .error failure⟩)
    | ⟨notices, .ok c⟩ =>
      let (x, result) := r.expandSelected s e c x
      (x, ⟨notices, result⟩)
  else (x, .ofExcept (.ok ()))

/-! ### All or nothing -/

/-- All is handed over, or nothing because there is no hierarchy. -/
theorem handOver_cases (r : Recipient σ) (k : Container) (c : Configuration) (x : σ) :
    (∃ ds cs, k.allDependencies c = .ok ds ∧ k.allConstraints c = .ok cs ∧
      r.handOver k c x = (r.take ds cs x, .ok ())) ∨
    ∃ failure, k.hierarchy c = .error failure ∧ r.handOver k c x = (x, .error failure) := by
  cases hhierarchy : k.hierarchy c with
  | ok members =>
      have hds : k.allDependencies c = .ok _ := Container.inherited_eq_ok.2 ⟨members, hhierarchy, rfl⟩
      have hcs : k.allConstraints c = .ok _ := Container.inherited_eq_ok.2 ⟨members, hhierarchy, rfl⟩
      refine Or.inl ⟨_, _, hds, hcs, ?_⟩
      simp only [handOver, hds, hcs, take]
  | error failure =>
      have hds : k.allDependencies c = .error failure := Container.inherited_eq_error.2 hhierarchy
      refine Or.inr ⟨failure, rfl, ?_⟩
      simp only [handOver, hds]

theorem expandSelected_of_expands (h : r.expands e x = true) (hsel : s.Selects e p c) :
    r.expandSelected s e c x = r.handOver p.container c x := by
  rw [expandSelected, if_pos h, hsel.1]

/-- Selecting the configuration first and expanding then is the same as expanding at once. -/
theorem expandSelected_eq (hsel : s.Selects e p c) (x : σ) :
    r.expandSelected s e c x = ((r.expand s e x).1, (r.expand s e x).2.result) := by
  cases hexpands : r.expands e x with
  | false => simp [expandSelected, expand, hexpands, Reporting.ofExcept]
  | true =>
      obtain ⟨hp, hc⟩ := hsel
      rw [expand, if_pos hexpands]
      generalize s.select e = selected at hc ⊢
      obtain ⟨notices, result⟩ := selected
      cases hc
      rfl

/-- An edge that hands over nothing looks nothing up. -/
theorem expand_of_not_expands (h : r.expands e x = false) (s : Store) : r.expand s e x = (x, ⟨[], .ok ()⟩) := by
  rw [expand, h]
  rfl

/-- Of an edge that selects nothing, the recipient sees nothing. -/
theorem expand_of_not_selected (h : r.expands e x = true) {failure : BuildError} (hselect : s.NotSelected e failure) :
    (r.expand s e x).1 = x ∧ (r.expand s e x).2.result = .error failure := by
  have hresult := Store.select_eq_error.2 hselect
  rw [expand, if_pos h]
  generalize s.select e = selected at hresult ⊢
  obtain ⟨notices, result⟩ := selected
  cases hresult
  exact ⟨rfl, rfl⟩

/-- An edge hands over all that its target declares or inherits, or fails and hands over nothing. -/
theorem expand_cases (h : r.expands e x = true) :
    (∃ p c ds cs, s.Selects e p c ∧ p.container.allDependencies c = .ok ds ∧ p.container.allConstraints c = .ok cs ∧
      (r.expand s e x).1 = r.take ds cs x ∧ (r.expand s e x).2.result = .ok ()) ∨
    ∃ failure, s.FailsWith e failure ∧ (r.expand s e x).1 = x ∧ (r.expand s e x).2.result = .error failure := by
  cases hselect : (s.select e).result with
  | error failure =>
      have hnot := Store.select_eq_error.1 hselect
      exact Or.inr ⟨failure, .lookup hnot, expand_of_not_selected h hnot⟩
  | ok c =>
      obtain ⟨p, hsel⟩ := Store.exists_selects_iff.2 hselect
      have hexpand := (expandSelected_eq (r := r) hsel x).symm.trans (expandSelected_of_expands h hsel)
      rcases r.handOver_cases p.container c x with ⟨ds, cs, hds, hcs, hall⟩ | ⟨failure, hfailure, hnone⟩
      · obtain ⟨hstate, hresult⟩ := Prod.mk.inj (hexpand.trans hall)
        exact Or.inl ⟨p, c, ds, cs, hsel, hds, hcs, hstate, hresult⟩
      · obtain ⟨hstate, hresult⟩ := Prod.mk.inj (hexpand.trans hnone)
        exact Or.inr ⟨failure, .hierarchy hsel hfailure, hstate, hresult⟩

end Recipient

/-! ### Intakes -/

namespace Intake

/-- An intake takes in one after the other at the end of its lists. -/
def recipient : Recipient Intake where
  transitive := transitive
  addDependency i d := i.addDependencies [d]
  addConstraint i c := i.addConstraints [c]

theorem take_recipient (ds : List Dependency) (cs : List Constraint) (i : Intake) :
    recipient.take ds cs i = (i.addDependencies ds).addConstraints cs := by
  have hds : ∀ i : Intake, ds.foldl recipient.addDependency i = i.addDependencies ds := by
    induction ds with
    | nil => simp [addDependencies]
    | cons d ds ih =>
        intro i
        rw [List.foldl_cons, ih]
        simp [recipient, addDependencies]
  have hcs : ∀ i : Intake, cs.foldl recipient.addConstraint i = i.addConstraints cs := by
    induction cs with
    | nil => simp [addConstraints]
    | cons c cs ih =>
        intro i
        rw [List.foldl_cons, ih]
        simp [recipient, addConstraints]
  rw [Recipient.take, hds, hcs]

end Intake

namespace Store

theorem handOver_eq_recipient (k : Container) (c : Configuration) (i : Intake) :
    handOver k c i = Intake.recipient.handOver k c i := by
  rcases Intake.recipient.handOver_cases k c i with ⟨ds, cs, hds, hcs, hall⟩ | ⟨failure, hfailure, hnone⟩
  · rw [hall, Intake.take_recipient]
    simp only [handOver, hds, hcs]
  · have hds : k.allDependencies c = .error failure := Container.inherited_eq_error.2 hfailure
    rw [hnone]
    simp only [handOver, hds]

theorem expandSelected_eq_recipient (s : Store) (e : Edge) (c : Configuration) (i : Intake) :
    s.expandSelected e c i = Intake.recipient.expandSelected s e c i := by
  simp only [expandSelected, handOver_eq_recipient]
  rfl

theorem expand_eq_recipient (s : Store) (e : Edge) (i : Intake) : s.expand e i = Intake.recipient.expand s e i := by
  simp only [expand, expandSelected_eq_recipient]
  rfl

/-- An edge that is not transitive, or whose recipient is not, hands over nothing and looks nothing up. Any other
one fails as it leads nowhere and hands over nothing, or hands over all that its target declares or inherits, in
order and nothing else. To have selected the target before makes no difference, and expanding into an intake is one
case of all this. -/
theorem expansion_all_or_nothing (s : Store) (e : Edge) {σ : Type} (r : Recipient σ) (x : σ) :
    ((e.request.transitive && r.transitive x) = false → ∀ s' : Store, r.expand s' e x = (x, ⟨[], .ok ()⟩)) ∧
    ((e.request.transitive && r.transitive x) = true →
      ((r.expand s e x).2.result = .ok () → ∃ p c ds cs, s.Selects e p c ∧ p.container.allDependencies c = .ok ds ∧
        p.container.allConstraints c = .ok cs ∧
        (r.expand s e x).1 = cs.foldl r.addConstraint (ds.foldl r.addDependency x)) ∧
      (∀ failure, (r.expand s e x).2.result = .error failure ↔ s.FailsWith e failure) ∧
      ∀ failure, (r.expand s e x).2.result = .error failure → (r.expand s e x).1 = x) ∧
    (∀ p c, s.Selects e p c → r.expandSelected s e c x = ((r.expand s e x).1, (r.expand s e x).2.result)) ∧
    ∀ i : Intake, s.expand e i = Intake.recipient.expand s e i ∧
      ∀ c, s.expandSelected e c i = Intake.recipient.expandSelected s e c i := by
  refine ⟨fun h s' => Recipient.expand_of_not_expands h s', fun h => ?_,
    fun p c hsel => Recipient.expandSelected_eq hsel x,
    fun i => ⟨s.expand_eq_recipient e i, fun c => s.expandSelected_eq_recipient e c i⟩⟩
  rcases Recipient.expand_cases (s := s) h with
    ⟨p, c, ds, cs, hsel, hds, hcs, hstate, hresult⟩ | ⟨failure, hfails, hstate, hresult⟩
  · -- The edge leads somewhere, so it does not fail.
    have hleads : ∀ failure, ¬ s.FailsWith e failure := by
      intro failure hfails
      obtain ⟨members, hmembers, _⟩ := Container.inherited_eq_ok.1 hds
      exact not_fails_iff.2 ⟨p, c, members, hsel, hmembers⟩ (fails_iff_failsWith.2 ⟨failure, hfails⟩)
    rw [hresult]
    refine ⟨fun _ => ⟨p, c, ds, cs, hsel, hds, hcs, hstate⟩, fun failure => ?_, fun failure hfailure => ?_⟩
    · exact iff_of_false (fun h => by cases h) (hleads failure)
    · cases hfailure
  · rw [hresult]
    refine ⟨fun h => (by cases h), fun other => ⟨fun hother => ?_, fun hother => ?_⟩, fun _ _ => hstate⟩
    · cases hother
      exact hfails
    · rw [hfails.unique hother]

end Store

namespace Build

/-- Keeps one journal of all that it is handed. -/
def journal : Recipient (List (Dependency ⊕ Constraint)) where
  transitive _ := true
  addDependency entries d := entries ++ [.inl d]
  addConstraint entries c := entries ++ [.inr c]

/-- The library hands over its module, the other project that it needs and its constraint. What extends itself hands
over nothing, and fails. -/
theorem expansion_all_or_nothing_journal :
    (∃ p c ds cs, workshop.store.Selects (offerOf 1 "lib") p c ∧ p.container.allDependencies c = .ok ds ∧
      p.container.allConstraints c = .ok cs ∧
      (journal.expand workshop.store (offerOf 1 "lib") []).1 =
        cs.foldl journal.addConstraint (ds.foldl journal.addDependency []) ∧
      journal.expandSelected workshop.store (offerOf 1 "lib") c [] =
        ([.inl (.module moduleOfLib), .inl (.project (offerOf 4 "util")), .inr ⟨"g", "m", "2", none⟩], .ok ())) ∧
    (frayed.store.FailsWith (edgeTo 1 "lib" "knot") (.configurationCycle "project ':lib'" "knot") ∧
      (journal.expand frayed.store (edgeTo 1 "lib" "knot") []).1 = []) ∧
    ∀ s : Store, journal.expand s ((edgeTo 1 "lib" "knot").setTransitive false) [] = ([], ⟨[], .ok ()⟩) := by
  refine ⟨?_, ?_, (Store.expansion_all_or_nothing .empty _ journal []).1 rfl⟩
  · obtain ⟨_, hopen, hselected, _⟩ :=
      Store.expansion_all_or_nothing workshop.store (offerOf 1 "lib") journal []
    have hresult : (journal.expand workshop.store (offerOf 1 "lib") []).2.result = .ok () := by decide +kernel
    have hjournal : (journal.expand workshop.store (offerOf 1 "lib") []).1 =
        [.inl (.module moduleOfLib), .inl (.project (offerOf 4 "util")), .inr ⟨"g", "m", "2", none⟩] := by
      decide +kernel
    obtain ⟨p, c, ds, cs, hsel, hds, hcs, hstate⟩ := (hopen rfl).1 hresult
    exact ⟨p, c, ds, cs, hsel, hds, hcs, hstate, by rw [hselected p c hsel, hjournal, hresult]⟩
  · obtain ⟨_, hopen, _⟩ := Store.expansion_all_or_nothing frayed.store (edgeTo 1 "lib" "knot") journal []
    obtain ⟨_, hfails, hnothing⟩ := hopen rfl
    have hresult : (journal.expand frayed.store (edgeTo 1 "lib" "knot") []).2.result =
        .error (.configurationCycle "project ':lib'" "knot") := by
      decide +kernel
    exact ⟨(hfails _).1 hresult, hnothing _ hresult⟩

end Build

end ProjectGraph
