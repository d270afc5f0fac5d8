import ProjectGraph.Container
import ProjectGraph.Dependency.Order
import ProjectGraph.Distinct
import ProjectGraph.Potential

/-!
The hierarchy of a configuration: itself and all it extends, depth first, each name once. A configuration
that extends itself, directly or through others, has no hierarchy.

What a configuration declares or inherits is what the members of its hierarchy declare, each item once.

The walk ends because every name it enters below the start is registered and new on the way down.
-/

namespace ProjectGraph

/-- The configurations that a walk has entered, in order. -/
structure Entered where
  /-- The last one in front. -/
  backwards : List Configuration
  names : Std.TreeSet String
  contains_names : ∀ name, names.contains name = backwards.any (·.name == name)

namespace Entered

theorem contains_insert_name (names : Std.TreeSet String) (added name : String) :
    (names.insert added).contains name = (added == name || names.contains name) := by
  rw [Std.TreeSet.contains_insert, Bool.eq_iff_iff]
  simp

def toList (e : Entered) : List Configuration := e.backwards.reverse

/-- Whether a configuration of this name was entered. -/
def contains (e : Entered) (name : String) : Bool := e.names.contains name

def start (c : Configuration) : Entered :=
  ⟨[c], (∅ : Std.TreeSet String).insert c.name, fun name => by
    rw [contains_insert_name]
    simp⟩

def add (e : Entered) (c : Configuration) : Entered :=
  ⟨c :: e.backwards, e.names.insert c.name, fun name => by
    rw [contains_insert_name, e.contains_names, List.any_cons]⟩

@[simp] theorem toList_start (c : Configuration) : (start c).toList = [c] := rfl

@[simp] theorem toList_add (e : Entered) (c : Configuration) : (e.add c).toList = e.toList ++ [c] := by
  simp [toList, add]

theorem contains_eq (e : Entered) (name : String) : e.contains name = e.toList.any (·.name == name) := by
  simp [contains, toList, e.contains_names]

end Entered

namespace Container

/-- What entering a configuration costs: one step, and one for each parent. -/
def entryCost (c : Configuration) : Nat := 1 + c.extendsFrom.length

/--
Enters the named parents in order, below the configurations that are being visited. `entered` holds all
that was entered so far.
-/
def climb (k : Container) (visiting : List String) (entered : Entered) (parents : List String) :
    Except BuildError Entered :=
  match parents with
  | [] => .ok entered
  | parent :: parents =>
    match _found : k.find parent with
    | .error e => .error e
    | .ok c =>
      if _new : visiting.contains c.name then .error (.configurationCycle k.ownerName c.name)
      else if entered.contains c.name then k.climb visiting entered parents
      else
        match k.climb (c.name :: visiting) (entered.add c) c.extendsFrom with
        | .error e => .error e
        | .ok entered => k.climb visiting entered parents
termination_by
  potential entryCost (fun c => visiting.contains c.name) k.configurations + parents.length
decreasing_by
  · simp only [List.length_cons]; omega
  · have := potential_add_le entryCost (fun c => visiting.contains c.name)
      (fun d => (c.name :: visiting).contains d.name)
      (fun d h => by simp only [List.contains_cons, h, Bool.or_true])
      (mem_configurations_of_find _found) (by simpa using _new) (by simp)
    simp only [entryCost, List.length_cons] at this ⊢
    omega
  · simp only [List.length_cons]; omega

/-- What entering a parent and those behind it comes to. -/
theorem climb_cons (k : Container) (visiting : List String) (entered : Entered) (parent : String)
    (parents : List String) :
    k.climb visiting entered (parent :: parents) = (do
      let c ← k.find parent
      if visiting.contains c.name then .error (.configurationCycle k.ownerName c.name)
      else if entered.contains c.name then k.climb visiting entered parents
      else do
        let entered ← k.climb (c.name :: visiting) (entered.add c) c.extendsFrom
        k.climb visiting entered parents) := by
  rw [climb]
  split
  · rename_i x hfound
    rw [hfound]
    rfl
  · rename_i c hfound
    rw [hfound]
    by_cases hcycle : visiting.contains c.name = true
    · exact (dif_pos hcycle).trans (if_pos hcycle).symm
    · refine (dif_neg hcycle).trans (Eq.trans ?_ (if_neg hcycle).symm)
      cases k.climb (c.name :: visiting) (entered.add c) c.extendsFrom <;> rfl

/-- The configuration, followed by all it extends. -/
def hierarchy (k : Container) (c : Configuration) : Except BuildError (List Configuration) :=
  (k.climb [c.name] (.start c) c.extendsFrom).map Entered.toList

/-- What the members of the hierarchy hold, each item once. -/
def inherited {α : Type} [BEq α] [Ord α] [Std.TransOrd α] [Std.LawfulBEqOrd α] (k : Container)
    (c : Configuration) (items : Configuration → List α) : Except BuildError (List α) := do
  let members ← k.hierarchy c
  return (Distinct.ofList (members.flatMap items)).toList

def allDependencies (k : Container) (c : Configuration) : Except BuildError (List Dependency) :=
  k.inherited c (·.dependencies)

def allConstraints (k : Container) (c : Configuration) : Except BuildError (List Constraint) :=
  k.inherited c (·.constraints)

def allArtifacts (k : Container) (c : Configuration) : Except BuildError (List Artifact) :=
  k.inherited c (·.artifacts)

/-- What a configuration holds or inherits is found exactly if it has a hierarchy. -/
theorem inherited_eq_ok {α : Type} [BEq α] [Ord α] [Std.TransOrd α] [Std.LawfulBEqOrd α] {k : Container}
    {c : Configuration} {items : Configuration → List α} {xs : List α} :
    k.inherited c items = .ok xs ↔
      ∃ members, k.hierarchy c = .ok members ∧ firstOccurrences (members.flatMap items) = xs := by
  unfold inherited
  cases k.hierarchy c with
  | error e => simp [bind, Except.bind]
  | ok members => simp [bind, Except.bind, pure, Except.pure]

/-- Whatever is asked for, the failure is that of the hierarchy. -/
theorem inherited_eq_error {α : Type} [BEq α] [Ord α] [Std.TransOrd α] [Std.LawfulBEqOrd α] {k : Container}
    {c : Configuration} {items : Configuration → List α} {x : BuildError} :
    k.inherited c items = .error x ↔ k.hierarchy c = .error x := by
  unfold inherited
  cases k.hierarchy c with
  | error e => simp [bind, Except.bind]
  | ok members => simp [bind, Except.bind, pure, Except.pure]

/-- The walk enters nothing but registered configurations. -/
theorem mem_of_climb {k : Container} {visiting : List String} {entered result : Entered}
    {parents : List String} (h : k.climb visiting entered parents = .ok result) {c : Configuration}
    (hc : c ∈ result.toList) : c ∈ entered.toList ∨ c ∈ k.configurations := by
  fun_induction climb k visiting entered parents generalizing result with
  | case1 => cases h; exact Or.inl hc
  | case2 => cases h
  | case3 => cases h
  | case4 _ _ _ _ _ _ _ _ ih => exact ih h hc
  | case5 => cases h
  | case6 visiting entered parent parents d found _ _ inner hinner ih₁ ih₂ =>
    rcases ih₂ h hc with hc | hc
    · rcases ih₁ hinner hc with hc | hc
      · rw [Entered.toList_add] at hc
        rcases List.mem_append.1 hc with hc | hc
        · exact Or.inl hc
        · cases List.mem_singleton.1 hc
          exact Or.inr (mem_configurations_of_find found)
      · exact Or.inr hc
    · exact Or.inr hc

theorem mem_of_hierarchy {k : Container} {c d : Configuration} {members : List Configuration}
    (h : k.hierarchy c = .ok members) (hd : d ∈ members) : d = c ∨ d ∈ k.configurations := by
  unfold hierarchy at h
  cases hr : k.climb [c.name] (.start c) c.extendsFrom with
  | error e => rw [hr] at h; cases h
  | ok entered =>
    rw [hr] at h
    cases h
    simpa using mem_of_climb hr hd

/-- What a registered configuration declares or inherits is declared by registered ones. -/
theorem mem_of_allDependencies {k : Container} {c : Configuration} (hc : c ∈ k.configurations)
    {ds : List Dependency} (h : k.allDependencies c = .ok ds) {d : Dependency} (hd : d ∈ ds) :
    d ∈ k.configurations.flatMap (·.dependencies) := by
  obtain ⟨members, hm, rfl⟩ := inherited_eq_ok.1 h
  obtain ⟨m, hmem, hdm⟩ := List.mem_flatMap.1 (mem_of_mem_firstOccurrences hd)
  refine List.mem_flatMap.2 ⟨m, ?_, hdm⟩
  rcases mem_of_hierarchy hm hmem with rfl | h
  · exact hc
  · exact h

end Container

end ProjectGraph
