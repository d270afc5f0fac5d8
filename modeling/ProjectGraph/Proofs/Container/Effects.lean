import ProjectGraph.Proofs.Container.Runs

/-!
What the operations of a container change. An operation that succeeds changes the entries that it names and
no others. Registering and renaming are all or nothing: where they fail, the container is what it was. A rebuild
is measured against what its action has left, since the action may run operations of its own.
-/

namespace ProjectGraph

namespace Container

variable {k k' : Container} {c : Configuration} {x : BuildError} {name source target : String} {d : Declaration}
  {action : Declaration → Container → Declaration × Container}

/-- The entries of `k'` are those of `k`, but for those of the names. -/
def SameBut (names : List String) (k k' : Container) : Prop :=
  ∀ other, other ∉ names → k'.find? other = k.find? other

theorem sameBut_put (k : Container) (name : String) (c : Configuration) : SameBut [name] k (k.put name c) := by
  intro other hother
  rw [find?_put, if_neg (fun heq => hother (List.mem_singleton.2 heq.symm))]

theorem sameBut_remove (k : Container) (name : String) : SameBut [name] k (k.remove name).1 := by
  intro other hother
  exact (find?_erase k name other).trans (if_neg fun heq => hother (List.mem_singleton.2 heq.symm))

theorem SameBut.append {k₁ k₂ k₃ : Container} {names names' : List String} (h : SameBut names k₁ k₂)
    (h' : SameBut names' k₂ k₃) : SameBut (names ++ names') k₁ k₃ := by
  intro other hother
  rw [List.mem_append, not_or] at hother
  exact (h' other hother.2).trans (h other hother.1)

theorem find?_put_self (k : Container) (name : String) (c : Configuration) :
    (k.put name c).find? name = some c := by
  rw [find?_put, if_pos rfl]

/-! ### One operation -/

theorem register_ok (h : k.register d = (k', .ok c)) :
    SameBut [d.name] k k' ∧ k.find? d.name = none ∧ c = k.own d ∧ k'.find? d.name = some c := by
  obtain heq | ⟨hfree, heq⟩ := k.register_cases d
  · rw [heq] at h
    cases h
  · rw [heq] at h
    cases h
    exact ⟨sameBut_put k d.name _, hfree, rfl, find?_put_self k d.name _⟩

theorem register_error (h : k.register d = (k', .error x)) : k' = k := by
  obtain heq | ⟨_, heq⟩ := k.register_cases d
  · rw [heq] at h
    cases h
    rfl
  · rw [heq] at h
    cases h

theorem configure_ok (h : k.configure name action = (k', .ok c)) :
    SameBut [name] (k.leftBy name action) k' ∧ k'.find? name = some c ∧
      ∃ old, k.find? name = some old ∧
        c = (k.leftBy name action).own { (action old.toDeclaration k).1 with name } := by
  obtain ⟨x, heq⟩ | ⟨old, d, hold, rfl, heq⟩ := k.configure_cases name action
  · rw [heq] at h
    cases h
  · rw [heq] at h
    cases h
    exact ⟨sameBut_put _ name _, find?_put_self _ name _, old, hold, rfl⟩

theorem configure_error (h : k.configure name action = (k', .error x)) : k' = k.leftBy name action := by
  obtain ⟨_, heq⟩ | ⟨_, _, _, _, heq⟩ := k.configure_cases name action
  · rw [heq] at h
    cases h
    rfl
  · rw [heq] at h
    cases h

theorem rename_ok (h : k.rename source target = (k', .ok c)) :
    SameBut [source, target] k k' ∧ k.find? target = none ∧ k'.find? source = none ∧ k'.find? target = some c ∧
      ∃ old, k.find? source = some old ∧ c = { old with name := target } := by
  obtain ⟨x, heq⟩ | ⟨old, hold, hfree, heq⟩ := k.rename_cases source target
  · rw [heq] at h
    cases h
  · rw [heq] at h
    cases h
    have hne : target ≠ source := by
      rintro rfl
      rw [hfree] at hold
      cases hold
    refine ⟨(k.sameBut_remove source).append (sameBut_put _ target _), hfree, ?_, find?_put_self _ target _, old,
      hold, rfl⟩
    rw [find?_put, if_neg hne, find?_erase, if_pos rfl]

theorem rename_error (h : k.rename source target = (k', .error x)) : k' = k := by
  obtain ⟨_, heq⟩ | ⟨_, _, _, heq⟩ := k.rename_cases source target
  · rw [heq] at h
    cases h
    rfl
  · rw [heq] at h
    cases h

theorem find?_remove_self (k : Container) (name : String) : (k.remove name).1.find? name = none := by
  exact (find?_erase k name name).trans (if_pos rfl)

/-! ### All operations, after every run -/

/-- After every run the container is keyed and belongs to the owner it was made for, and so is whatever an action
makes of it on the way. Each operation changes what it names or, if it fails, nothing of its own. -/
theorem keyed_and_changed_by_name {owner : ProjectPath} {ownerName : String} (h : (new owner ownerName).Run k) :
    (∀ k', k.Run k' → k'.owner = owner ∧ k'.Keyed) ∧
    (∀ d k', (∀ c, k.register d = (k', .ok c) →
        SameBut [d.name] k k' ∧ k.find? d.name = none ∧ c = k.own d ∧ k'.find? d.name = some c) ∧
      ∀ x, k.register d = (k', .error x) → k' = k) ∧
    (∀ name action k', (∀ c, k.configure name action = (k', .ok c) →
        SameBut [name] (k.leftBy name action) k' ∧ k'.find? name = some c ∧
          ∃ old, k.find? name = some old ∧
            c = (k.leftBy name action).own { (action old.toDeclaration k).1 with name }) ∧
      ∀ x, k.configure name action = (k', .error x) → k' = k.leftBy name action) ∧
    (∀ source target k', (∀ c, k.rename source target = (k', .ok c) →
        SameBut [source, target] k k' ∧ k.find? target = none ∧ k'.find? source = none ∧ k'.find? target = some c ∧
          ∃ old, k.find? source = some old ∧ c = { old with name := target }) ∧
      ∀ x, k.rename source target = (k', .error x) → k' = k) ∧
    ∀ name, SameBut [name] k (k.remove name).1 ∧ (k.remove name).1.find? name = none := by
  have hkeyed : k.Keyed := h.keyed (keyed_new owner ownerName)
  refine ⟨fun k' later => ⟨later.owner_eq.trans h.owner_eq, later.keyed hkeyed⟩, ?_, ?_, ?_, ?_⟩
  · intro d k'
    exact ⟨fun c => register_ok, fun x => register_error⟩
  · intro name action k'
    exact ⟨fun c => configure_ok, fun x => configure_error⟩
  · intro source target k'
    exact ⟨fun c => rename_ok, fun x => rename_error⟩
  · intro name
    exact ⟨k.sameBut_remove name, k.find?_remove_self name⟩

/-- A container with two configurations. -/
def paired : Container :=
  (((new .root "root project 'shop'").register (.named "api")).1.register (.named "impl")).1

/-- Moves one configuration while another one is rebuilt, and hands back a declaration of a third name. -/
def meddle (d : Declaration) (k : Container) : Declaration × Container :=
  ({ d with name := "other", extendsFrom := ["internal"] }, (k.rename "impl" "internal").1)

theorem run_paired : (new .root "root project 'shop'").Run paired :=
  (Run.register (.named "api") (.refl _)).register (.named "impl")

theorem run_meddle (d : Declaration) (k : Container) : k.Run (meddle d k).2 :=
  .rename "impl" "internal" (.refl k)

theorem keyed_and_changed_by_name_meddled :
    let k := (paired.configure "api" meddle).1
    (new .root "root project 'shop'").Run k ∧ k.names = ["api", "internal"] ∧ k.Keyed ∧
      (k.rename "impl" "gone").2.isOk = false ∧ (k.rename "impl" "gone").1 = k := by
  intro k
  have hrun : (new .root "root project 'shop'").Run k :=
    run_paired.configure "api" meddle fun c _ => run_meddle c.toDeclaration paired
  obtain ⟨hkept, _, _, hrename, _⟩ := keyed_and_changed_by_name hrun
  have hfails : (k.rename "impl" "gone").2.isOk = false := by decide +kernel
  have hnames : k.names = ["api", "internal"] := by decide +kernel
  refine ⟨hrun, hnames, (hkept k (.refl k)).2, hfails, ?_⟩
  cases hresult : (k.rename "impl" "gone").2 with
  | ok c =>
      rw [hresult] at hfails
      cases hfails
  | error x => exact (hrename "impl" "gone" _).2 x (Prod.ext rfl hresult)

end Container

end ProjectGraph
