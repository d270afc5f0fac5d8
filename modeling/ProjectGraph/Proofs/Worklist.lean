import ProjectGraph.Reporting
import Mathlib.Data.List.Forall2

/-!
Waiting lists. The walks over a build take items from the front of a list, deal with each one in the light of
what they know so far, and put what comes of it to the end, until nothing waits or an item fails. `Drains` is
this loop by itself: what working off a list gives, without the measure by which the loops are seen to end.

What holds at the start and is kept by every item holds at the end (`Drains.ok`) and when an item fails
(`Drains.failed`). It may speak of the notices that were raised so far as well (`Drains.ok_account`,
`Drains.failed_account`). Two lists whose items go in step have the same outcome (`Drains.lockstep`).
-/

namespace ProjectGraph

variable {σ α : Type}

/-- Working off `queue` from a state, each item by `step`, ends in `outcome`. -/
inductive Drains (step : σ → α → Reporting (σ × List α)) : List α → σ → Reporting σ → Prop
  | done (state : σ) : Drains step [] state (pure state)
  | fails {state : σ} {a : α} {queue : List α} {notices : List Raised} {x : BuildError}
      (failure : step state a = ⟨notices, .error x⟩) :
      Drains step (a :: queue) state ⟨notices, .error x⟩
  | goesOn {state state' : σ} {a : α} {queue added : List α} {notices : List Raised}
      {outcome : Reporting σ} (success : step state a = ⟨notices, .ok (state', added)⟩)
      (rest : Drains step (queue ++ added) state' outcome) :
      Drains step (a :: queue) state (outcome.after notices)

/-- What is known of the waiting list and the state stays true when an item is dealt with. -/
def Keeps (step : σ → α → Reporting (σ × List α)) (I : List α → σ → Prop) : Prop :=
  ∀ (a : α) (queue added : List α) (state state' : σ) (notices : List Raised),
    I (a :: queue) state → step state a = ⟨notices, .ok (state', added)⟩ → I (queue ++ added) state'

/-- The same for what is known of the waiting list, the state and the notices so far. -/
def KeepsAccount (step : σ → α → Reporting (σ × List α)) (I : List α → σ → List Raised → Prop) : Prop :=
  ∀ (a : α) (queue added : List α) (state state' : σ) (notices raised : List Raised),
    I (a :: queue) state raised → step state a = ⟨notices, .ok (state', added)⟩ →
      I (queue ++ added) state' (raised ++ notices)

theorem Keeps.account {step : σ → α → Reporting (σ × List α)} {I : List α → σ → Prop} (h : Keeps step I) :
    KeepsAccount step fun queue state _ => I queue state :=
  fun a queue added state state' notices _ => h a queue added state state' notices

namespace Drains

variable {step : σ → α → Reporting (σ × List α)} {I : List α → σ → Prop} {queue : List α} {state : σ}
  {outcome : Reporting σ}

/-- An item that raises nothing adds nothing to the outcome. -/
theorem quietly {a : α} {state' : σ} {added : List α} (success : step state a = ⟨[], .ok (state', added)⟩)
    (rest : Drains step (queue ++ added) state' outcome) : Drains step (a :: queue) state outcome := by
  have h := goesOn success rest
  rwa [Reporting.after_nil] at h

/-- What every item keeps holds when nothing waits any more, of all notices that were raised. -/
theorem ok_account {I : List α → σ → List Raised → Prop} (h : Drains step queue state outcome)
    (keeps : KeepsAccount step I) (raised : List Raised) (start : I queue state raised) {final : σ}
    (hok : outcome.result = .ok final) : I [] final (raised ++ outcome.notices) := by
  induction h generalizing raised with
  | done state =>
      cases hok
      rwa [Reporting.pure_eq, List.append_nil]
  | fails failure => cases hok
  | @goesOn _ _ _ _ _ notices outcome success rest ih =>
      have hend := ih _ (keeps _ _ _ _ _ _ _ start success) hok
      rwa [List.append_assoc] at hend

/-- What every item keeps holds when an item fails, of the notices that were raised before it. -/
theorem failed_account {I : List α → σ → List Raised → Prop} (h : Drains step queue state outcome)
    (keeps : KeepsAccount step I) (raised : List Raised) (start : I queue state raised) {x : BuildError}
    (herror : outcome.result = .error x) :
    ∃ (a : α) (rest : List α) (state : σ) (before : List Raised),
      I (a :: rest) state before ∧ (step state a).result = .error x ∧
        raised ++ outcome.notices = before ++ (step state a).notices := by
  induction h generalizing raised with
  | done state => cases herror
  | fails failure =>
      cases herror
      refine ⟨_, _, _, raised, start, congrArg Reporting.result failure, ?_⟩
      rw [failure]
  | @goesOn _ _ _ _ _ notices outcome success rest ih =>
      obtain ⟨a, waiting, last, before, hI, hlast, hnotices⟩ := ih _ (keeps _ _ _ _ _ _ _ start success) herror
      rw [List.append_assoc] at hnotices
      exact ⟨a, waiting, last, before, hI, hlast, hnotices⟩

/-- What every item keeps holds when nothing waits any more. -/
theorem ok (h : Drains step queue state outcome) (keeps : Keeps step I) (start : I queue state)
    {final : σ} (hok : outcome.result = .ok final) : I [] final :=
  h.ok_account keeps.account [] start hok

/-- What every item keeps holds when an item fails. -/
theorem failed (h : Drains step queue state outcome) (keeps : Keeps step I) (start : I queue state)
    {x : BuildError} (herror : outcome.result = .error x) :
    ∃ (a : α) (rest : List α) (state : σ),
      I (a :: rest) state ∧ (step state a).result = .error x := by
  obtain ⟨a, rest, last, _, hI, hlast, _⟩ := h.failed_account keeps.account [] start herror
  exact ⟨a, rest, last, hI, hlast⟩

/-- Two steps with the same effect on the state, and related items put to the waiting list. -/
inductive InStep (R : α → α → Prop) : Reporting (σ × List α) → Reporting (σ × List α) → Prop
  | fails (notices : List Raised) (x : BuildError) : InStep R ⟨notices, .error x⟩ ⟨notices, .error x⟩
  | goesOn (notices : List Raised) (state : σ) {added added' : List α}
      (related : List.Forall₂ R added added') :
      InStep R ⟨notices, .ok (state, added)⟩ ⟨notices, .ok (state, added')⟩

/-- Lists of related items have the same outcome if related items go in step. -/
theorem lockstep {step' : σ → α → Reporting (σ × List α)} {R : α → α → Prop}
    (inStep : ∀ (state : σ) (a a' : α), R a a' → InStep R (step state a) (step' state a'))
    {queue' : List α} {outcome' : Reporting σ} (h : Drains step queue state outcome)
    (h' : Drains step' queue' state outcome') (related : List.Forall₂ R queue queue') :
    outcome = outcome' := by
  -- Along the first loop; the second one has no choice but to do the same.
  induction h generalizing queue' outcome' with
  | done state =>
      cases related
      cases h'
      rfl
  | @fails state a queue notices x failure =>
      obtain _ | ⟨ha, _⟩ := related
      have both := inStep state _ _ ha
      rw [failure] at both
      cases h' with
      | fails failure' =>
          rw [failure'] at both
          cases both
          rfl
      | goesOn success' rest' =>
          rw [success'] at both
          cases both
  | @goesOn state next a queue added notices outcome success rest ih =>
      obtain _ | ⟨ha, hqueue⟩ := related
      have both := inStep state _ _ ha
      rw [success] at both
      cases h' with
      | fails failure' =>
          rw [failure'] at both
          cases both
      | goesOn success' rest' =>
          rw [success'] at both
          cases both with
          | goesOn _ _ hadded => rw [ih rest' (List.rel_append hqueue hadded)]

/-- There is only one outcome. -/
theorem unique {outcome' : Reporting σ} (h : Drains step queue state outcome)
    (h' : Drains step queue state outcome') : outcome = outcome' := by
  have hself : ∀ items : List α, List.Forall₂ Eq items items := fun items =>
    List.forall₂_same.2 fun _ _ => rfl
  refine lockstep ?_ h h' (hself queue)
  rintro state a _ rfl
  generalize step state a = result
  obtain ⟨notices, failure | ⟨state', added⟩⟩ := result
  · exact .fails notices failure
  · exact .goesOn notices state' (hself added)

end Drains

end ProjectGraph
