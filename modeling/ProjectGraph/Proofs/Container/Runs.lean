import ProjectGraph.Container

/-!
Runs of a container: registering, rebuilding, renaming and removing in any order. The action that rebuilds a
configuration may do all of this to the same container before it hands back its declaration, and the
declaration may be any.

The configurations of a container stay keyed: each one goes by the name under which it is stored, and belongs
to the owner of the container.
-/

namespace ProjectGraph

namespace Container

/-- What may become of a container. An operation that fails is a step like any other. -/
inductive Run : Container → Container → Prop
  | refl (k : Container) : Run k k
  | register {k k' : Container} (d : Declaration) (before : Run k k') : Run k (k'.register d).1
  | configure {k k' : Container} (name : String)
      (action : Declaration → Container → Declaration × Container) (before : Run k k')
      (during : ∀ c, k'.find? name = some c → Run k' (action c.toDeclaration k').2) :
      Run k (k'.configure name action).1
  | rename {k k' : Container} (source target : String) (before : Run k k') :
      Run k (k'.rename source target).1
  | remove {k k' : Container} (name : String) (before : Run k k') : Run k (k'.remove name).1

/-- Each configuration goes by its key and belongs to the container's owner. -/
structure Keyed (k : Container) : Prop where
  name_eq : ∀ {name : String} {c : Configuration}, k.find? name = some c → c.name = name
  owner_eq : ∀ {name : String} {c : Configuration}, k.find? name = some c → c.owner = k.owner

theorem keyed_new (owner : ProjectPath) (ownerName : String) : (new owner ownerName).Keyed := by
  constructor <;> intro name c h <;> simp [find?, new] at h

/-! ### What the operations make of the entries -/

theorem find?_put (k : Container) (name other : String) (c : Configuration) :
    (k.put name c).find? other = if name = other then some c else k.find? other := by
  simp [find?, put, Std.ExtTreeMap.getElem?_insert, Std.LawfulEqCmp.compare_eq_iff_eq]

theorem find?_erase (k : Container) (name other : String) :
    ({ k with entries := k.entries.erase name } : Container).find? other =
      if name = other then none else k.find? other := by
  simp [find?, Std.ExtTreeMap.getElem?_erase, Std.LawfulEqCmp.compare_eq_iff_eq]

theorem Keyed.put {k : Container} (h : k.Keyed) {name : String} {c : Configuration}
    (hname : c.name = name) (howner : c.owner = k.owner) : (k.put name c).Keyed := by
  constructor <;> intro other d hd <;> rw [find?_put] at hd <;> split at hd
  · rename_i heq
    cases hd
    exact hname.trans heq
  · exact h.name_eq hd
  · cases hd
    exact howner
  · exact h.owner_eq hd

theorem Keyed.erase {k : Container} (h : k.Keyed) (name : String) :
    ({ k with entries := k.entries.erase name } : Container).Keyed := by
  constructor <;> intro other d hd <;> rw [find?_erase] at hd <;> split at hd
  · cases hd
  · exact h.name_eq hd
  · cases hd
  · exact h.owner_eq hd

/-! ### What each operation does -/

theorem contains_eq (k : Container) (name : String) : k.entries.contains name = (k.find? name).isSome :=
  Std.ExtTreeMap.contains_eq_isSome_getElem?

/-- Registering fails if the name is taken, and puts the configuration under its name otherwise. -/
theorem register_cases (k : Container) (d : Declaration) :
    k.register d = (k, .error (.duplicateConfiguration k.ownerName d.name)) ∨
    k.find? d.name = none ∧ k.register d = (k.put d.name (k.own d), .ok (k.own d)) := by
  unfold register
  rw [contains_eq]
  cases hd : k.find? d.name with
  | some c => exact Or.inl rfl
  | none => exact Or.inr ⟨rfl, rfl⟩

/-- Taking out what is not there changes nothing. -/
theorem erase_eq_self {k : Container} {name : String} (h : k.find? name = none) :
    ({ k with entries := k.entries.erase name } : Container) = k := by
  have hentries : k.entries.erase name = k.entries := by
    apply Std.ExtTreeMap.ext_getElem?
    intro other
    have herase := find?_erase k name other
    simp only [find?] at herase h
    rw [herase]
    split
    · rename_i heq
      rw [← heq, h]
    · rfl
  rw [hentries]

/-- Renaming fails if the new name is taken or nothing goes by the old one. -/
theorem rename_cases (k : Container) (source target : String) :
    (∃ x, k.rename source target = (k, .error x)) ∨
    ∃ c, k.find? source = some c ∧ k.find? target = none ∧ k.rename source target =
      (({ k with entries := k.entries.erase source } : Container).put target { c with name := target },
        .ok { c with name := target }) := by
  unfold rename remove
  rw [contains_eq]
  cases ht : k.find? target with
  | some c => exact Or.inl ⟨_, rfl⟩
  | none =>
      cases hs : k.find? source with
      | some c => exact Or.inr ⟨c, rfl, rfl, rfl⟩
      | none =>
          -- The source was taken out although it is not there.
          refine Or.inl ⟨.noSuchConfiguration k.ownerName source, ?_⟩
          simp only [Option.isSome_none, erase_eq_self hs]
          rfl

/-- What the action of a rebuild leaves; it does not run if nothing goes by the name. -/
def leftBy (k : Container) (name : String) (action : Declaration → Container → Declaration × Container) :
    Container :=
  match k.find? name with
  | some c => (action c.toDeclaration k).2
  | none => k

/-- Rebuilding leaves what the action left, with or without what the action handed back. -/
theorem configure_cases (k : Container) (name : String)
    (action : Declaration → Container → Declaration × Container) :
    (∃ x, k.configure name action = (k.leftBy name action, .error x)) ∨
    ∃ c d, k.find? name = some c ∧ d = (action c.toDeclaration k).1 ∧ k.configure name action =
      ((k.leftBy name action).put name ((k.leftBy name action).own { d with name }),
        .ok ((k.leftBy name action).own { d with name })) := by
  unfold configure leftBy find
  cases k.find? name with
  | none => exact Or.inl ⟨_, rfl⟩
  | some c =>
      simp only [replace]
      split
      · exact Or.inr ⟨c, _, rfl, rfl, rfl⟩
      · exact Or.inl ⟨_, rfl⟩

/-- What holds of the container now and of what the action leaves holds of what is left. -/
theorem leftBy_of {k : Container} {name : String} {action : Declaration → Container → Declaration × Container}
    {P : Container → Prop} (now : P k) (later : ∀ c, k.find? name = some c → P (action c.toDeclaration k).2) :
    P (k.leftBy name action) := by
  unfold leftBy
  split
  · rename_i c hc
    exact later c hc
  · exact now

/-! ### What a run keeps -/

/-- What does not depend on the entries stays. -/
theorem Run.label_eq {α : Type} {label : Container → α} {k k' : Container}
    (blind : ∀ k entries, label { k with entries } = label k) (h : Run k k') : label k' = label k := by
  induction h with
  | refl k => rfl
  | @register k k' d before ih =>
      obtain heq | ⟨_, heq⟩ := k'.register_cases d
      · rw [heq]
        exact ih
      · rw [heq]
        exact (blind k' _).trans ih
  | @configure k k' name action before during ih ihDuring =>
      have hleft : label (k'.leftBy name action) = label k :=
        leftBy_of (P := fun left => label left = label k) ih fun c hc => (ihDuring c hc).trans ih
      obtain ⟨x, heq⟩ | ⟨c, d, _, _, heq⟩ := k'.configure_cases name action
      · rw [heq]
        exact hleft
      · rw [heq]
        exact (blind _ _).trans hleft
  | @rename k k' source target before ih =>
      obtain ⟨x, heq⟩ | ⟨c, _, _, heq⟩ := k'.rename_cases source target
      · rw [heq]
        exact ih
      · rw [heq]
        exact (blind k' _).trans ih
  | @remove k k' name before ih => exact (blind k' _).trans ih

theorem Run.owner_eq {k k' : Container} (h : Run k k') : k'.owner = k.owner := h.label_eq fun _ _ => rfl

theorem Run.ownerName_eq {k k' : Container} (h : Run k k') : k'.ownerName = k.ownerName := h.label_eq fun _ _ => rfl

theorem Run.trans {k k' k'' : Container} (h : Run k k') (h' : Run k' k'') : Run k k'' := by
  induction h' with
  | refl k' => exact h
  | register d before ih => exact (ih h).register d
  | configure name action before during ih ihDuring => exact (ih h).configure name action during
  | rename source target before ih => exact (ih h).rename source target
  | remove name before ih => exact (ih h).remove name

theorem Run.keyed {k k' : Container} (h : Run k k') (start : k.Keyed) : k'.Keyed := by
  induction h with
  | refl k => exact start
  | @register k k' d before ih =>
      obtain heq | ⟨_, heq⟩ := k'.register_cases d
      · rw [heq]
        exact ih start
      · rw [heq]
        exact (ih start).put rfl rfl
  | @configure k k' name action before during ih ihDuring =>
      have hleft : (k'.leftBy name action).Keyed := leftBy_of (ih start) fun c hc => ihDuring c hc (ih start)
      obtain ⟨x, heq⟩ | ⟨c, d, _, _, heq⟩ := k'.configure_cases name action
      · rw [heq]
        exact hleft
      · -- The name is set to the key whatever the action's declaration says.
        rw [heq]
        exact hleft.put rfl rfl
  | @rename k k' source target before ih =>
      obtain ⟨x, heq⟩ | ⟨c, hc, _, heq⟩ := k'.rename_cases source target
      · rw [heq]
        exact ih start
      · rw [heq]
        have howner := (ih start).owner_eq hc
        exact ((ih start).erase source).put rfl howner
  | remove name before ih => exact (ih start).erase name

end Container

end ProjectGraph
