import Mathlib.Data.List.Infix
import ProjectGraph.Proofs.Container.Effects
import ProjectGraph.Proofs.Container.Unfolding

/-!
What a rebuild puts its result in place of. Its action starts from what is registered under the name, and may change
the container before it hands back a declaration; then it is asked whether something is registered under the name, but
not whether it is still the same.

Registering and renaming never overwrite, so what goes by a name goes on to do so until it is taken out. A rebuild
that succeeds has therefore replaced what its action started from, unless the name was free at some time in between.
In that case it may have replaced what was put there since, of which nothing is left (`configure_overwrites_newcomer`).
-/

namespace ProjectGraph

namespace Container

/-- An operation that an action may run, other than a rebuild. -/
inductive Change where
  | register (d : Declaration)
  | rename (source target : String)
  | remove (name : String)

def apply (k : Container) : Change → Container
  | .register d => (k.register d).1
  | .rename source target => (k.rename source target).1
  | .remove name => (k.remove name).1

/-- What the changes make of the container, one after the other. -/
def after (k : Container) (changes : List Change) : Container := changes.foldl apply k

/-- The name is free at first, or after some of the changes. -/
def Vacated (k : Container) (name : String) (changes : List Change) : Prop :=
  ∃ before, before <+: changes ∧ (k.after before).find? name = none

variable {k : Container} {c : Configuration} {name : String} {changes : List Change}
  {action : Declaration → Container → Declaration × Container}

theorem find?_apply (h : k.find? name = some c) (change : Change) :
    (k.apply change).find? name = some c ∨ (k.apply change).find? name = none := by
  cases change with
  | register d =>
      left
      obtain heq | ⟨hfree, heq⟩ := k.register_cases d
      · simpa only [apply, heq] using h
      · have hne : d.name ≠ name := by
          intro heq
          rw [heq, h] at hfree
          cases hfree
        simp only [apply, heq]
        rw [find?_put, if_neg hne]
        exact h
  | rename source target =>
      obtain ⟨x, heq⟩ | ⟨d, _, hfree, heq⟩ := k.rename_cases source target
      · left
        simpa only [apply, heq] using h
      · have hne : target ≠ name := by
          intro heq
          rw [heq, h] at hfree
          cases hfree
        simp only [apply, heq]
        rw [find?_put, if_neg hne, find?_erase]
        split
        · exact Or.inr rfl
        · exact Or.inl h
  | remove other =>
      have hremove : (k.apply (.remove other)).find? name = if other = name then none else k.find? name :=
        find?_erase k other name
      rw [hremove]
      split
      · exact Or.inr rfl
      · exact Or.inl h

theorem Vacated.cons {change : Change} (h : (k.apply change).Vacated name changes) :
    k.Vacated name (change :: changes) := by
  obtain ⟨before, hbefore, hfree⟩ := h
  exact ⟨change :: before, List.cons_prefix_cons.2 ⟨rfl, hbefore⟩, hfree⟩

/-- What goes by a name still does after the changes, or was taken out by one of them. -/
theorem find?_after (h : k.find? name = some c) (changes : List Change) :
    (k.after changes).find? name = some c ∨ k.Vacated name changes := by
  induction changes generalizing k with
  | nil => exact Or.inl h
  | cons change changes ih =>
      rcases find?_apply h change with hstays | hfree
      · exact (ih hstays).imp id Vacated.cons
      · exact Or.inr ⟨[change], by simp, hfree⟩

/-- A rebuild whose action runs the changes: it fails if the name is free in the end. Otherwise it replaces what its
action started from, unless the name was free at some time before. -/
theorem configure_replaces_unless_vacated {old : Configuration} (hold : k.find? name = some old)
    (hleft : (action old.toDeclaration k).2 = k.after changes) :
    let left := k.after changes
    let updated := left.own { (action old.toDeclaration k).1 with name }
    left.find? name = none ∧ k.configure name action = (left, .error (.noSuchConfiguration left.ownerName name)) ∨
    ∃ replaced, left.find? name = some replaced ∧ k.configure name action = (left.put name updated, .ok updated) ∧
      (replaced = old ∨ k.Vacated name changes) := by
  intro left updated
  have hconfigure : k.configure name action = left.replace name (action old.toDeclaration k).1 := by
    unfold configure find
    rw [hold]
    exact congrArg (fun left => Container.replace left name _) hleft
  rw [hconfigure, replace, contains_eq]
  cases hreplaced : left.find? name with
  | none => exact Or.inl ⟨rfl, rfl⟩
  | some replaced =>
      refine Or.inr ⟨replaced, rfl, rfl, ?_⟩
      refine (find?_after hold changes).imp_left fun hstays => ?_
      rw [hstays] at hreplaced
      exact (Option.some.inj hreplaced).symm

/-- Runs the changes, and hands back what it was given. -/
def running (changes : List Change) (d : Declaration) (k : Container) : Declaration × Container :=
  (d, k.after changes)

/-- The implementation gets another name while the core is rebuilt, and the runtime goes. -/
def clearing : List Change := [.rename "impl" "internal", .remove "runtime"]

theorem configure_replaces_unless_vacated_layered :
    let core := layered.own (extending "core" [])
    layered.find? "core" = some core ∧ (layered.after clearing).names = ["core", "internal"] ∧
      (layered.after clearing).find? "core" = some core ∧
      (layered.configure "core" (running clearing)).2.isOk := by
  intro core
  have hcore : layered.find? "core" = some core := rfl
  have hleft : (running clearing core.toDeclaration layered).2 = layered.after clearing := rfl
  have hthere : ∀ before ∈ clearing.inits, ((layered.after before).find? "core").isSome := by decide +kernel
  have hnames : (layered.after clearing).names = ["core", "internal"] := by decide +kernel
  refine ⟨hcore, hnames, ?_⟩
  obtain ⟨hnone, _⟩ | ⟨replaced, hreplaced, hok, hsame | ⟨before, hbefore, hfree⟩⟩ :=
    configure_replaces_unless_vacated hcore hleft
  · have hsome := hthere clearing ((List.mem_inits _ _).2 List.prefix_rfl)
    rw [hnone] at hsome
    cases hsome
  · rw [hok, ← hsame]
    exact ⟨hreplaced, rfl⟩
  · have hsome := hthere before ((List.mem_inits _ _).2 hbefore)
    rw [hfree] at hsome
    cases hsome

/-- Puts the implementation in the place of the core. -/
def supplanting : List Change := [.remove "core", .rename "impl" "core"]

/-- The core is rebuilt, and while this goes on the implementation takes its place. It is not the core any more that
is replaced, and what the implementation needed is nowhere to be found. -/
theorem configure_overwrites_newcomer :
    let core := layered.own (extending "core" [])
    let newcomer := { layered.own (extending "impl" ["core"]) with name := "core" }
    let rebuilt := layered.configure "core" (running supplanting)
    layered.find? "core" = some core ∧ (layered.after supplanting).find? "core" = some newcomer ∧
      newcomer.extendsFrom ≠ core.extendsFrom ∧ rebuilt.2.isOk ∧ rebuilt.1.names = ["core", "runtime"] ∧
      ∀ d ∈ newcomer.dependencies, (rebuilt.1.configurations.flatMap (·.dependencies)).contains d = false := by
  intro core newcomer rebuilt
  refine ⟨rfl, rfl, by decide, rfl, by decide +kernel, ?_⟩
  decide +kernel

end Container

end ProjectGraph
