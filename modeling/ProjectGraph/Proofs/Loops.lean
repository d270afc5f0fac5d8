import Mathlib.Data.List.Forall2

/-!
Loops that may fail. A loop that maps the items of a list succeeds if every item does. A loop that carries a state is
followed by what is known of the items gone through so far (`foldlM_follows`), and succeeds if this lets every item
succeed (`exists_foldlM`).
-/

namespace ProjectGraph

/-- A sequence has a value if both halves have one. -/
theorem except_bind_eq_ok {ε α β : Type} {r : Except ε α} {f : α → Except ε β} {b : β} :
    r >>= f = .ok b ↔ ∃ a, r = .ok a ∧ f a = .ok b := by
  cases r with
  | error x =>
      constructor
      · intro h
        cases h
      · rintro ⟨a, ha, _⟩
        cases ha
  | ok a =>
      constructor
      · intro h
        exact ⟨a, rfl, h⟩
      · rintro ⟨a', ha', h⟩
        cases ha'
        exact h

theorem except_map_eq_ok {ε α β : Type} {r : Except ε α} {f : α → β} {b : β} :
    r.map f = .ok b ↔ ∃ a, r = .ok a ∧ f a = b := by
  cases r <;> simp [Except.map]

/-- What fails only together with something that has a value has one, too. -/
theorem exists_ok_of_error {ε ε' α β : Type} {r : Except ε α} {r' : Except ε' β}
    (h : ∀ x', r' = .error x' → ∃ x, r = .error x) {a : α} (hr : r = .ok a) : ∃ b, r' = .ok b := by
  cases hr' : r' with
  | ok b => exact ⟨b, rfl⟩
  | error x' =>
      obtain ⟨x, hx⟩ := h x' hr'
      rw [hr] at hx
      cases hx

section Loops

variable {ε σ α β : Type}

theorem mapM_eq_ok_iff {f : α → Except ε β} {xs : List α} {ys : List β} :
    xs.mapM f = .ok ys ↔ List.Forall₂ (fun x y => f x = .ok y) xs ys := by
  induction xs generalizing ys with
  | nil =>
      rw [List.mapM_nil, List.forall₂_nil_left_iff]
      exact ⟨fun h => (Except.ok.inj h).symm, fun h => congrArg Except.ok h.symm⟩
  | cons x xs ih =>
      rw [List.mapM_cons, List.forall₂_cons_left_iff, except_bind_eq_ok]
      constructor
      · rintro ⟨y, hy, h⟩
        obtain ⟨others, hothers, h⟩ := except_bind_eq_ok.1 h
        cases h
        exact ⟨y, others, hy, ih.1 hothers, rfl⟩
      · rintro ⟨y, others, hy, hothers, rfl⟩
        exact ⟨y, hy, except_bind_eq_ok.2 ⟨others, ih.2 hothers, rfl⟩⟩

theorem exists_of_forall₂ {R : α → β → Prop} {xs : List α} {ys : List β} (h : List.Forall₂ R xs ys) :
    ∀ y ∈ ys, ∃ x ∈ xs, R x y := by
  induction h with
  | nil => exact List.forall_mem_nil _
  | @cons x y xs ys hxy _ ih =>
      refine List.forall_mem_cons.2 ⟨⟨x, List.mem_cons_self, hxy⟩, fun y' hy' => ?_⟩
      obtain ⟨x', hx', hrel⟩ := ih y' hy'
      exact ⟨x', List.mem_cons_of_mem _ hx', hrel⟩

theorem exists_mapM_eq_ok_iff {f : α → Except ε β} {xs : List α} :
    (∃ ys, xs.mapM f = .ok ys) ↔ ∀ x ∈ xs, ∃ y, f x = .ok y := by
  induction xs with
  | nil => exact iff_of_true ⟨[], rfl⟩ fun x hx => nomatch hx
  | cons x xs ih =>
      rw [List.forall_mem_cons, ← ih]
      simp only [mapM_eq_ok_iff, List.forall₂_cons_left_iff]
      constructor
      · rintro ⟨_, y, ys, hy, hys, _⟩
        exact ⟨⟨y, hy⟩, ys, hys⟩
      · rintro ⟨⟨y, hy⟩, ys, hys⟩
        exact ⟨y :: ys, y, ys, hy, hys, rfl⟩

theorem foldlM_flatMap (f : σ → β → Except ε σ) (parts : α → List β) (xs : List α) (s : σ) :
    (xs.flatMap parts).foldlM f s = xs.foldlM (fun s x => (parts x).foldlM f s) s := by
  induction xs generalizing s with
  | nil => rfl
  | cons x xs ih =>
      rw [List.flatMap_cons, List.foldlM_append, List.foldlM_cons]
      exact congrArg (_ >>= ·) (funext ih)

variable {f : σ → α → Except ε σ} {xs : List α} {s s' : σ} (P : List α → σ → Prop) (done : List α)

/-- What holds of the items gone through so far holds of all of them at the end. -/
theorem foldlM_follows (step : ∀ done s a s', a ∈ xs → P done s → f s a = .ok s' → P (done ++ [a]) s')
    (start : P done s) (h : xs.foldlM f s = .ok s') : P (done ++ xs) s' := by
  induction xs generalizing done s with
  | nil =>
      cases h
      rwa [List.append_nil]
  | cons x xs ih =>
      rw [List.foldlM_cons] at h
      obtain ⟨next, hnext, h⟩ := except_bind_eq_ok.1 h
      have hend : P (done ++ [x] ++ xs) s' :=
        ih (done ++ [x]) (fun done s a s' ha => step done s a s' (List.mem_cons_of_mem _ ha))
          (step done s x next List.mem_cons_self start hnext) h
      rwa [List.append_assoc] at hend

/-- A loop succeeds if each step does, given what holds of the items before it. -/
theorem exists_foldlM
    (step : ∀ before s a, before ++ [a] <+: done ++ xs → P before s → ∃ s', f s a = .ok s' ∧ P (before ++ [a]) s')
    (start : P done s) : ∃ s', xs.foldlM f s = .ok s' ∧ P (done ++ xs) s' := by
  induction xs generalizing done s with
  | nil => exact ⟨s, rfl, by rwa [List.append_nil]⟩
  | cons x xs ih =>
      obtain ⟨next, hnext, hthere⟩ := step done s x ⟨xs, by rw [List.append_assoc]; rfl⟩ start
      have hrest := ih (done ++ [x]) (fun before s a hbefore => step before s a (by rwa [List.append_assoc] at hbefore))
        hthere
      rw [List.append_assoc, List.singleton_append] at hrest
      obtain ⟨s', hs', hend⟩ := hrest
      exact ⟨s', by rw [List.foldlM_cons, hnext]; exact hs', hend⟩

/-- What every step keeps holds at the end. -/
theorem foldlM_keeps {P : σ → Prop} (step : ∀ s a s', a ∈ xs → P s → f s a = .ok s' → P s') (start : P s)
    (h : xs.foldlM f s = .ok s') : P s' :=
  foldlM_follows (fun _ => P) [] (fun _ => step) start h

end Loops

end ProjectGraph
