import ProjectGraph.Potential
import ProjectGraph.Proofs.Worklist
import Mathlib.Data.List.Perm.Subperm

/-!
The loop of a waiting list, with what it does on the way: `Takes` is `Drains` that keeps each item together with the
state in which it is taken up. There is one for every outcome (`Drains.exists_takes`), and it says nothing else about
the outcome (`Takes.drains`).

Where an item fails, all that the items in front of it have done is to raise notices. If they raised none, the outcome
is the failure (`Takes.eq_of_fails_behind`).

The items are counted by weights. An item that weighs at least as much as it brings, and one more, pays for itself.
Where it brings more, the rest is paid for by what the state gains or by an amount of its own (`Takes.length_le`).
-/

namespace ProjectGraph

variable {σ α : Type}

/-- Working off `queue` from a state takes up `taken`, and ends in `outcome` from the state `last`. -/
inductive Takes (step : σ → α → Reporting (σ × List α)) : List α → σ → List (σ × α) → σ → Reporting σ → Prop
  | done (state : σ) : Takes step [] state [] state (pure state)
  | fails {state : σ} {a : α} {queue : List α} {notices : List Raised} {x : BuildError}
      (failure : step state a = ⟨notices, .error x⟩) :
      Takes step (a :: queue) state [(state, a)] state ⟨notices, .error x⟩
  | goesOn {state state' last : σ} {a : α} {queue added : List α} {taken : List (σ × α)} {notices : List Raised}
      {outcome : Reporting σ} (success : step state a = ⟨notices, .ok (state', added)⟩)
      (rest : Takes step (queue ++ added) state' taken last outcome) :
      Takes step (a :: queue) state ((state, a) :: taken) last (outcome.after notices)

/-- Where `I` holds of the state, taking up the item raises nothing and keeps it. -/
def Quietly (step : σ → α → Reporting (σ × List α)) (I : σ → Prop) (t : σ × α) : Prop :=
  I t.1 → (step t.1 t.2).notices = [] ∧ ∀ state' added, (step t.1 t.2).result = .ok (state', added) → I state'

theorem Drains.exists_takes {step : σ → α → Reporting (σ × List α)} {queue : List α} {state : σ} {outcome : Reporting σ}
    (h : Drains step queue state outcome) : ∃ taken last, Takes step queue state taken last outcome := by
  induction h with
  | done state => exact ⟨_, _, .done state⟩
  | fails failure => exact ⟨_, _, .fails failure⟩
  | goesOn success rest ih =>
      obtain ⟨taken, last, h⟩ := ih
      exact ⟨_, last, .goesOn success h⟩

namespace Takes

variable {step : σ → α → Reporting (σ × List α)} {queue : List α} {state last : σ} {taken : List (σ × α)}
  {outcome : Reporting σ}

theorem drains (h : Takes step queue state taken last outcome) : Drains step queue state outcome := by
  induction h with
  | done state => exact .done state
  | fails failure => exact .fails failure
  | goesOn success rest ih => exact .goesOn success ih

/-- What waits in front is taken up first. -/
theorem first {a : α} (h : Takes step (a :: queue) state taken last outcome) : ∃ back, taken = (state, a) :: back := by
  cases h with
  | fails failure => exact ⟨_, rfl⟩
  | goesOn success rest => exact ⟨_, rfl⟩

theorem last_of_ok (h : Takes step queue state taken last outcome) {final : σ} (hok : outcome.result = .ok final) :
    last = final := by
  induction h with
  | done state => exact Except.ok.inj hok
  | fails failure => cases hok
  | goesOn success rest ih => exact ih hok

/-- What every item keeps holds of the last state, whether or not an item fails there. -/
theorem keeps {I : List α → σ → Prop} (h : Takes step queue state taken last outcome) (keeps : Keeps step I)
    (start : I queue state) : ∃ waiting, I waiting last := by
  induction h with
  | done state => exact ⟨_, start⟩
  | fails failure => exact ⟨_, start⟩
  | goesOn success rest ih => exact ih (keeps _ _ _ _ _ _ start success)

/-- What holds of the first items, and passes from an item to what it brings, holds of all that are taken up. -/
theorem forall_taken {P : α → Prop} (h : Takes step queue state taken last outcome)
    (brings : ∀ state a state' added, P a → (step state a).result = .ok (state', added) → ∀ b ∈ added, P b)
    (start : ∀ a ∈ queue, P a) : ∀ t ∈ taken, P t.2 := by
  induction h with
  | done state => simp
  | fails failure => simpa using start _ List.mem_cons_self
  | @goesOn state state' last a queue added taken notices outcome success rest ih =>
      obtain ⟨ha, hqueue⟩ := List.forall_mem_cons.1 start
      have hadded : ∀ b ∈ added, P b := brings state a state' added ha (congrArg Reporting.result success)
      have hrest := ih fun b hb => (List.mem_append.1 hb).elim (hqueue b) (hadded b)
      exact List.forall_mem_cons.2 ⟨ha, hrest⟩

/-- Items in front that go quietly leave the outcome to those behind. -/
theorem behind {I : σ → Prop} {front back : List (σ × α)} {t : σ × α}
    (h : Takes step queue state (front ++ t :: back) last outcome) (start : I state)
    (quiet : ∀ u ∈ front, Quietly step I u) :
    I t.1 ∧ ∃ waiting, Takes step (t.2 :: waiting) t.1 (t :: back) last outcome := by
  induction front generalizing queue state outcome with
  | nil =>
      have hqueue : ∃ waiting, queue = t.2 :: waiting ∧ state = t.1 := by
        cases h with
        | fails failure => exact ⟨_, rfl, rfl⟩
        | goesOn success rest => exact ⟨_, rfl, rfl⟩
      obtain ⟨waiting, rfl, rfl⟩ := hqueue
      exact ⟨start, waiting, h⟩
  | cons u front ih =>
      generalize htaken : u :: front ++ t :: back = taken at h
      cases h with
      | done => cases htaken
      | fails failure => simp at htaken
      | @goesOn _ state' _ a queue added taken notices outcome success rest =>
          obtain ⟨rfl, rfl⟩ := List.cons.inj htaken
          obtain ⟨hnone, hkeeps⟩ := quiet _ List.mem_cons_self start
          rw [success] at hnone hkeeps
          cases hnone
          rw [Reporting.after_nil]
          exact ih rest (hkeeps state' added rfl) fun v hv => quiet v (List.mem_cons_of_mem _ hv)

/-- If the item behind them fails, the outcome is its failure. -/
theorem eq_of_fails_behind {I : σ → Prop} {front back : List (σ × α)} {t : σ × α}
    (h : Takes step queue state (front ++ t :: back) last outcome) (start : I state)
    (quiet : ∀ u ∈ front, Quietly step I u) {notices : List Raised} {x : BuildError}
    (failure : I t.1 → step t.1 t.2 = ⟨notices, .error x⟩) : outcome = ⟨notices, .error x⟩ := by
  obtain ⟨hI, waiting, htakes⟩ := h.behind start quiet
  exact htakes.drains.unique (.fails (failure hI))

end Takes

/-! ### Counting -/

variable {weight : α → Nat} {xs ys : List α}

theorem total_append (weight : α → Nat) (xs ys : List α) :
    total weight (xs ++ ys) = total weight xs + total weight ys := by
  induction xs with
  | nil => rw [List.nil_append, total, Nat.zero_add]
  | cons x xs ih => rw [List.cons_append, total, ih, total, Nat.add_assoc]

theorem total_one (xs : List α) : total (fun _ => 1) xs = xs.length := by
  induction xs with
  | nil => rfl
  | cons x xs ih => rw [total, ih, List.length_cons, Nat.add_comm]

theorem total_zero (xs : List α) : total (fun _ => 0) xs = 0 := by
  induction xs with
  | nil => rfl
  | cons x xs ih => rw [total, ih]

theorem total_eq_of_perm (h : xs.Perm ys) : total weight xs = total weight ys := by
  induction h with
  | nil => rfl
  | cons x _ ih => rw [total, total, ih]
  | swap x y xs => exact Nat.add_left_comm _ _ _
  | trans _ _ ih ih' => exact ih.trans ih'

theorem total_le_of_sublist (h : xs.Sublist ys) : total weight xs ≤ total weight ys := by
  induction h with
  | slnil => exact Nat.le_refl _
  | cons x _ ih => exact Nat.le_trans ih (Nat.le_add_left _ _)
  | cons_cons x _ ih => exact Nat.add_le_add_left ih _

/-- Distinct members of a list weigh no more than the list. -/
theorem total_le_of_nodup (weight : α → Nat) (hxs : xs.Nodup) (h : xs ⊆ ys) : total weight xs ≤ total weight ys := by
  obtain ⟨zs, hperm, hsub⟩ := hxs.subperm h
  rw [← total_eq_of_perm hperm]
  exact total_le_of_sublist hsub

/-- No more is taken up than what waits at first weighs, what the state gains, and what is paid besides. -/
theorem Takes.length_le {step : σ → α → Reporting (σ × List α)} (weight : α → Nat) (gain : σ → Nat)
    (extra : σ × α → Nat) (positive : ∀ a, 1 ≤ weight a)
    (paid : ∀ state a state' added, (step state a).result = .ok (state', added) →
      1 + total weight added + gain state ≤ weight a + extra (state, a) + gain state')
    {queue : List α} {state last : σ} {taken : List (σ × α)} {outcome : Reporting σ}
    (h : Takes step queue state taken last outcome) :
    taken.length + gain state ≤ total weight queue + total extra taken + gain last := by
  induction h with
  | done state => exact Nat.add_le_add_right (Nat.zero_le _) _
  | @fails state a queue notices x failure =>
      have := positive a
      simp only [total, List.length_singleton]
      omega
  | @goesOn state state' last a queue added taken notices outcome success rest ih =>
      have := paid state a state' added (congrArg Reporting.result success)
      rw [total_append] at ih
      simp only [total, List.length_cons]
      omega

end ProjectGraph
