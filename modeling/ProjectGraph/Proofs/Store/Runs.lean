import Mathlib.Logic.Relation
import ProjectGraph.Proofs.Build.Growth
import ProjectGraph.Proofs.Container.Hierarchy
import ProjectGraph.Proofs.Dependency.Identity

/-!
Runs of a store. Reporters and projects are added, projects are changed by their own operations or dropped, and
notices are handed over, in any order; projects of several builds may stand side by side.

Two things are kept. Every live project is sound and has a reporter (`Coherent`). And a number that was given out
leads to what has become of the same project for as long as it leads anywhere (`Run.becomes`), so an edge that was made
at any time still goes by the path of its producer. Both come from one lemma on what a step makes of a live project
(`Step.project?_cases`).
-/

namespace ProjectGraph

namespace Store

variable {s s' s₀ : Store} {e : Edge} {p : Project} {c : Configuration}

/-- What may become of a store at once. A project reports to a reporter of the store. -/
inductive Step : Store → Store → Prop
  | addReporter (s : Store) (mode : WarningMode) : Step s (s.addReporter mode).1
  | addProject (s : Store) (path : ProjectPath) (name : String) {reporter : ReporterId}
      (there : reporter.index < s.reporters.length) : Step s (s.add (.new path name reporter)).1
  | change (s : Store) (id : ProjectId) (f : Project → Project)
      (becomes : ∀ p, s.project? id = some p → p.Becomes (f p)) : Step s (s.modify id f)
  | drop (s : Store) (kept : List ProjectId) : Step s (s.retain kept)
  | deliver (s : Store) (notice : Raised) : Step s (s.deliver notice)

/-- What may become of a store in time. -/
def Run : Store → Store → Prop := Relation.ReflTransGen Step

/-! ### What a step does -/

theorem Step.length_le (h : Step s s') :
    s.projects.length ≤ s'.projects.length ∧ s.reporters.length ≤ s'.reporters.length := by
  cases h with
  | addReporter mode => simp [Store.addReporter]
  | addProject path name there => simp [add]
  | change id f becomes => simp [modify]
  | drop kept => simp [retain]
  | deliver notice => simp [Store.deliver]

/-- A project that is there after a step has come from one that was there, or it is new and has a new number. -/
theorem Step.project?_cases (h : Step s s') {id : ProjectId} (hp : s'.project? id = some p) :
    (∃ before, s.project? id = some before ∧ before.Becomes p) ∨
    id.index = s.projects.length ∧
      ∃ path name reporter, p = .new path name reporter ∧ reporter.index < s.reporters.length := by
  cases h with
  | addReporter mode => exact Or.inl ⟨p, hp, .refl p⟩
  | addProject path name there =>
      rw [project?_add] at hp
      split at hp
      · rename_i hid
        cases hp
        exact Or.inr ⟨congrArg ProjectId.index hid, path, name, _, rfl, there⟩
      · exact Or.inl ⟨p, hp, .refl p⟩
  | change changed f becomes =>
      rw [project?_modify] at hp
      split at hp
      · rename_i hid
        subst hid
        obtain ⟨before, hbefore, rfl⟩ := Option.map_eq_some_iff.1 hp
        exact Or.inl ⟨before, hbefore, becomes before hbefore⟩
      · exact Or.inl ⟨p, hp, .refl p⟩
  | drop kept =>
      rw [project?_retain] at hp
      split at hp
      · exact Or.inl ⟨p, hp, .refl p⟩
      · cases hp
  | deliver notice => exact Or.inl ⟨p, hp, .refl p⟩

/-! ### What is kept -/

/-- Every live project is sound at its own path, and there is somebody to hear its notices. -/
def Coherent (s : Store) : Prop :=
  ∀ (id : ProjectId) (p : Project), s.project? id = some p →
    Build.Sound p.path p ∧ p.reporter.index < s.reporters.length

theorem coherent_empty : empty.Coherent := by
  intro id p hp
  simp [project?, empty] at hp

theorem Coherent.step (h : s.Coherent) (hstep : Step s s') : s'.Coherent := by
  intro id p hp
  have hreporters := hstep.length_le.2
  rcases hstep.project?_cases hp with ⟨before, hbefore, hbecomes⟩ | ⟨_, path, name, reporter, rfl, hthere⟩
  · obtain ⟨hsound, hheard⟩ := h id before hbefore
    rw [hbecomes.path_eq, hbecomes.reporter_eq]
    exact ⟨hsound.becomes hbecomes, Nat.lt_of_lt_of_le hheard hreporters⟩
  · exact ⟨Build.sound_new path name reporter, Nat.lt_of_lt_of_le hthere hreporters⟩

theorem Coherent.run (h : s.Coherent) (hrun : s.Run s') : s'.Coherent := by
  induction hrun with
  | refl => exact h
  | tail _ hstep ih => exact ih.step hstep

theorem Run.length_le (h : s₀.Run s) : s₀.projects.length ≤ s.projects.length := by
  induction h with
  | refl => exact Nat.le_refl _
  | tail _ hstep ih => exact ih.trans hstep.length_le.1

/-- A number that was given out leads nowhere else: to what has become of the project that had it, or to none. -/
theorem Run.becomes (h : s₀.Run s) {id : ProjectId} (given : id.index < s₀.projects.length)
    (hp : s.project? id = some p) : ∃ p₀, s₀.project? id = some p₀ ∧ p₀.Becomes p := by
  induction h generalizing p with
  | refl => exact ⟨p, hp, .refl p⟩
  | tail before hstep ih =>
      rcases hstep.project?_cases hp with ⟨q, hq, hbecomes⟩ | ⟨hnew, _⟩
      · obtain ⟨p₀, hp₀, hfirst⟩ := ih hq
        exact ⟨p₀, hp₀, hfirst.trans hbecomes⟩
      · -- A new number has not been given out before.
        have := Run.length_le before
        omega

theorem index_lt_of_project? {id : ProjectId} (h : s.project? id = some p) : id.index < s.projects.length := by
  by_contra hlarge
  simp [project?, List.getElem?_eq_none (Nat.le_of_not_lt hlarge)] at h

theorem Run.becomes_of_project? (h : s₀.Run s) {id : ProjectId} {p₀ : Project} (hp₀ : s₀.project? id = some p₀)
    (hp : s.project? id = some p) : p₀.Becomes p := by
  obtain ⟨q, hq, hbecomes⟩ := h.becomes (index_lt_of_project? hp₀) hp
  rw [hp₀] at hq
  cases hq
  exact hbecomes

/-- An edge goes by the path of its producer for as long as this is there, whatever has happened since it was made. -/
theorem Run.path_eq_of_made (h : s₀.Run s) (made : e.Made s₀) (hp : s.project? e.producer = some p) :
    e.path = p.path := by
  obtain ⟨maker, hmaker, hpath⟩ := made.path_eq
  rw [(h.becomes_of_project? hmaker hp).path_eq]
  exact hpath

/-! ### Projects of a build -/

theorem Run.addReporter (h : s₀.Run s) (mode : WarningMode) : s₀.Run (s.addReporter mode).1 :=
  h.tail (.addReporter s mode)

theorem Run.start (h : s₀.Run s) (rootName : String) {reporter : ReporterId}
    (there : reporter.index < s.reporters.length) : s₀.Run (Build.start s rootName reporter).store :=
  h.tail (.addProject s .root rootName there)

/-- Projects that a build is asked for are added one by one. -/
theorem Run.enroll {b b' : Build} {path : ProjectPath} {id : ProjectId} (h : s₀.Run b.store)
    (there : b.tree.reporter.index < b.store.reporters.length) (hok : b.enroll path = .ok (b', id)) :
    s₀.Run b'.store := by
  -- The reporter of the tree has to stay in the store, too.
  have hkept : s₀.Run b'.store ∧ b'.tree.reporter.index < b'.store.reporters.length := by
    refine Build.enroll_keeps (P := fun b => s₀.Run b.store ∧ b.tree.reporter.index < b.store.reporters.length) ?_
      ⟨h, there⟩ hok
    rintro b path name ⟨hrun, hthere⟩
    exact ⟨hrun.tail (.addProject b.store path name hthere), hthere⟩
  exact hkept.1

theorem Run.change (h : s₀.Run s) (id : ProjectId) (f : Project → Project)
    (becomes : ∀ p : Project, p.Becomes (f p)) : s₀.Run (s.modify id f) :=
  h.tail (.change s id f fun p _ => becomes p)

/-! ### Notices that are handed over -/

/-- Handing over notices changes no project. -/
theorem projects_deliverAll (s : Store) (raised : List Raised) : (s.deliverAll raised).1.projects = s.projects := by
  simp only [deliverAll]
  induction raised generalizing s with
  | nil => rfl
  | cons notice raised ih => exact ih (s.deliver notice)

/-- A notice comes to the end of what its reporter has heard, and no other reporter hears it. -/
theorem notices_deliver {notice : Raised} (h : notice.reporter.index < s.reporters.length) (id : ReporterId) :
    ((s.deliver notice).reporter id).notices =
      (s.reporter id).notices ++ if id = notice.reporter then [notice.notice] else [] := by
  obtain ⟨index⟩ := id
  obtain ⟨⟨addressee⟩, notice⟩ := notice
  simp only [reporter, deliver, List.getElem?_modify, ReporterId.mk.injEq]
  rcases eq_or_ne index addressee with rfl | hne
  · simp [List.getElem?_eq_getElem h]
  · simp [hne, hne.symm]

/-- What a reporter hears of a selected configuration. -/
theorem notices_deliverAll_consumption (h : p.reporter.index < s.reporters.length) (id : ReporterId) :
    (((s.deliverAll (consumptionNotices p.reporter c)).1).reporter id).notices =
      (s.reporter id).notices ++
        if id = p.reporter then (c.consumptionDeprecation.map (Notice.consumption c.name)).toList else [] := by
  cases hc : c.consumptionDeprecation with
  | none => simp [consumptionNotices, deliverAll, hc]
  | some replacements =>
      have hnotice : consumptionNotices p.reporter c = [⟨p.reporter, .consumption c.name replacements⟩] := by
        simp [consumptionNotices, hc]
      rw [hnotice]
      exact notices_deliver h id

/-! ### Selection -/

/-- Wherever a run has led, an edge that was made on the way selects what its producer has under the effective name
now, if it is consumable: a configuration of that name and of the path of the edge. This is told to the reporter of
the producer if the configuration is deprecated as a target. What cannot be selected is told to nobody, and no
project ever changes. -/
theorem selection_over_runs (origin : empty.Run s₀) (made : e.Made s₀) (run : s₀.Run s) :
    let after := (s.deliverAll (s.select e).notices).1
    (∀ c, (s.select e).result = .ok c ↔ ∃ p, s.project? e.producer = some p ∧
      p.container.find? (e.request.targetConfiguration.getD "default") = some c ∧ c.roles.consumable = true) ∧
    (∀ p c, s.Selects e p c → c.name = e.request.targetConfiguration.getD "default" ∧ c.owner = e.path ∧
      ∀ id, (after.reporter id).notices = (s.reporter id).notices ++
        if id = p.reporter then (c.consumptionDeprecation.map (Notice.consumption c.name)).toList else []) ∧
    (∀ x, (s.select e).result = .error x ↔ s.NotSelected e x) ∧
    (∀ x, (s.select e).result = .error x → after = s) ∧
    after.projects = s.projects := by
  have hcoherent : s.Coherent := coherent_empty.run (origin.trans run)
  refine ⟨fun c => ?_, fun p c hsel => ?_, fun x => select_eq_error, fun x hx => ?_, s.projects_deliverAll _⟩
  · rw [← exists_selects_iff]
    exact exists_congr fun p => selects_iff
  · obtain ⟨hp, hfind, _⟩ := selects_iff.1 hsel
    obtain ⟨hsound, hheard⟩ := hcoherent e.producer p hp
    have howner : c.owner = e.path :=
      ((hsound.keyed.owner_eq hfind).trans hsound.owner_eq).trans (run.path_eq_of_made made hp).symm
    refine ⟨hsound.keyed.name_eq hfind, howner, fun id => ?_⟩
    rw [hsel.select_eq]
    exact notices_deliverAll_consumption hheard id
  · rw [(select_eq_error.1 hx).select_eq]
    rfl

/-! ### A library that changes under an edge -/

/-- A shop whose library offers an interface. -/
def offering : Store :=
  let b := ((Build.start (empty.addReporter .all).1 "shop" ⟨0⟩).addProject ⟨["lib"]⟩).1
  b.store.modify ⟨1⟩ (·.declare (.named "api"))

/-- The interface by another name, and something deprecated that goes by the old one. -/
def refitted : Store :=
  let moved := offering.modify ⟨1⟩ fun p => { p with container := (p.container.rename "api" "impl").1 }
  moved.modify ⟨1⟩ (·.declare { Declaration.named "api" with consumptionDeprecation := some ["impl"] })

def edgeToApi : Edge := .requesting ⟨1⟩ ⟨["lib"]⟩ true (.targeting (some "api"))

theorem run_offering : empty.Run offering := by
  have hstart : empty.Run (Build.start (empty.addReporter .all).1 "shop" ⟨0⟩).store :=
    (Run.addReporter .refl .all).start "shop" (by decide)
  have hadd := hstart.enroll (by decide) ((Build.rooted_start _ "shop" ⟨0⟩).enroll_eq ⟨["lib"]⟩)
  exact hadd.change ⟨1⟩ _ fun p => p.becomes_declare _

theorem run_refitted : offering.Run refitted := by
  have hstay : offering.Run offering := .refl
  have hmoved := hstay.change ⟨1⟩ (fun p => { p with container := (p.container.rename "api" "impl").1 })
    fun p => ⟨rfl, rfl, .rename _ _ (.refl _)⟩
  exact hmoved.change ⟨1⟩ _ fun p => p.becomes_declare _

theorem made_edgeToApi : edgeToApi.Made offering := by
  have hlib : (offering.project? ⟨1⟩).map (·.path) = some ⟨["lib"]⟩ := by decide +kernel
  obtain ⟨p, hp, hpath⟩ := Option.map_eq_some_iff.1 hlib
  have hmade := Edge.Made.new hp (some "api") true
  rwa [hpath] at hmade

/-- The edge now selects what has taken the name, and its one notice is heard. Without its producer it selects
nothing. -/
theorem selection_over_runs_refitted :
    (∃ p c, refitted.Selects edgeToApi p c ∧ c.name = "api" ∧ c.owner = ⟨["lib"]⟩ ∧
      ((refitted.deliverAll (refitted.select edgeToApi).notices).1.reporter p.reporter).notices =
        [.consumption "api" ["impl"]]) ∧
    (refitted.retain []).NotSelected edgeToApi (.unknownProject ":lib") ∧
    ((refitted.retain []).deliverAll ((refitted.retain []).select edgeToApi).notices).1 = refitted.retain [] := by
  constructor
  · obtain ⟨hselects, hselected, _⟩ := selection_over_runs run_offering made_edgeToApi run_refitted
    have hfound : (refitted.select edgeToApi).result.toOption.map (·.consumptionDeprecation) =
        some (some ["impl"]) := by
      decide +kernel
    obtain ⟨c, hc, hdeprecated⟩ := Build.exists_eq_ok hfound
    obtain ⟨p, hsel⟩ := exists_selects_iff.2 hc
    obtain ⟨hname, howner, hheard⟩ := hselected p c hsel
    have hbefore : ∀ id, (refitted.reporter id).notices = [] := by
      rintro ⟨_ | index⟩
      · decide +kernel
      · rfl
    refine ⟨p, c, hsel, hname, howner, ?_⟩
    rw [hheard, hbefore, if_pos rfl, hdeprecated, hname]
    rfl
  · have hdropped : offering.Run (refitted.retain []) := run_refitted.tail (.drop _ [])
    obtain ⟨_, _, herror, hunheard, _⟩ := selection_over_runs run_offering made_edgeToApi hdropped
    have hgone : ((refitted.retain []).select edgeToApi).result = .error (.unknownProject ":lib") :=
      Container.eq_error_of_failure? (by decide +kernel)
    exact ⟨(herror _).1 hgone, hunheard _ hgone⟩

end Store

end ProjectGraph
