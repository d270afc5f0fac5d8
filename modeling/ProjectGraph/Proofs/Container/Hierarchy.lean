import Mathlib.Logic.Relation
import ProjectGraph.Proofs.Container.Unfolding

/-!
Which configurations have a hierarchy. The names that a name reaches through parents decide: there is a hierarchy
exactly if all of them are registered and none of them reaches itself. `Founded` says the same by recursion: a name is
registered, and all it extends is founded. A failure tells which it was, and names a culprit (`Explains`).

The way a parent is reached does not count, so a configuration may be reached in two ways, or be named twice as a
parent. The walk finds a cycle by the names it is visiting, and each of these lies strictly above what it is about to
enter.
-/

namespace ProjectGraph

namespace Container

variable {k : Container} {c : Configuration} {name other : String} {visiting parents : List String}
  {entered : Entered} {x : BuildError}

/-- What is registered under the name has the parent. -/
def Extends (k : Container) (name parent : String) : Prop :=
  ∃ c, k.find? name = some c ∧ parent ∈ c.extendsFrom

/-- The name is registered, and all its parents are founded. -/
inductive Founded (k : Container) : String → Prop
  | intro {name : String} {c : Configuration} (found : k.find? name = some c)
      (parents : ∀ parent ∈ c.extendsFrom, Founded k parent) : Founded k name

/-- The name itself, its parents, their parents, and so on. -/
def Reaches (k : Container) : String → String → Prop := Relation.ReflTransGen k.Extends

/-- In one or more steps. -/
def ReachesItself (k : Container) (name : String) : Prop := Relation.TransGen k.Extends name name

/-- All that is reached is registered. -/
def Complete (k : Container) (name : String) : Prop :=
  ∀ other, k.Reaches name other → ∃ d, k.find? other = some d

/-- What a failure may say of the hierarchy of what goes by the name. -/
def Explains (k : Container) (name : String) : BuildError → Prop
  | .configurationCycle project culprit =>
      project = k.ownerName ∧ k.Reaches name culprit ∧ k.ReachesItself culprit
  | .noSuchConfiguration project culprit =>
      project = k.ownerName ∧ k.find? culprit = none ∧ ∃ between, k.Reaches name between ∧ k.Extends between culprit
  | _ => False

/-! ### Founded names -/

/-- Nothing founded extends itself. -/
theorem Founded.not_above_self (h : k.Founded name) : ¬ Relation.TransGen k.Extends name name := by
  induction h with
  | @intro name c found parents ih =>
      intro hcycle
      obtain ⟨parent, ⟨c', hc', hparent⟩, hback⟩ := Relation.TransGen.head'_iff.1 hcycle
      rw [found] at hc'
      cases hc'
      -- The cycle goes through the parent as well.
      have hturned : Relation.TransGen k.Extends parent parent := .tail' hback ⟨c, found, hparent⟩
      exact ih parent hparent hturned

/-- What a founded name reaches is founded. -/
theorem Founded.of_reaches (h : k.Founded name) (hreaches : k.Reaches name other) : k.Founded other := by
  induction hreaches with
  | refl => exact h
  | tail _ hstep ih =>
      obtain ⟨hfind, hparents⟩ := ih
      obtain ⟨d, hd, hparent⟩ := hstep
      rw [hfind] at hd
      cases hd
      exact hparents _ hparent

theorem Founded.complete (h : k.Founded name) : k.Complete name := by
  intro other hreaches
  obtain ⟨hfind, _⟩ := h.of_reaches hreaches
  exact ⟨_, hfind⟩

theorem Founded.acyclic (h : k.Founded name) : ∀ other, k.Reaches name other → ¬ k.ReachesItself other :=
  fun _ hreaches => (h.of_reaches hreaches).not_above_self

/-- What can be unfolded is founded. -/
theorem Unfolds.founded {names : List String} {whole : List Configuration} (h : k.Unfolds names whole) :
    ∀ name ∈ names, k.Founded name := by
  induction h with
  | nil => simp
  | @cons name names c above rest found parents others ihParents ihOthers =>
      exact List.forall_mem_cons.2 ⟨.intro found ihParents, ihOthers⟩

/-! ### Failures -/

/-- What is visited lies strictly above the parents of what is entered next. -/
theorem above_parents_of_enter {parent : String} (hfind : k.find? parent = some c) (hc : c.name = parent)
    (hvisiting : ∀ v ∈ visiting, Relation.TransGen k.Extends v parent) :
    ∀ v ∈ c.name :: visiting, ∀ p ∈ c.extendsFrom, Relation.TransGen k.Extends v p := by
  intro v hv p hp
  have hstep : k.Extends parent p := ⟨c, hfind, hp⟩
  rcases List.mem_cons.1 hv with rfl | hv
  · rw [hc]
    exact .single hstep
  · exact (hvisiting v hv).tail hstep

/-- A failure of the walk is explained, if all it is visiting lies strictly above what it is about to enter. -/
theorem explains_of_climb (hk : k.Keyed) (h : k.climb visiting entered parents = .error x)
    (hparents : ∀ parent ∈ parents, ∃ between, k.Reaches name between ∧ k.Extends between parent)
    (hvisiting : ∀ v ∈ visiting, ∀ parent ∈ parents, Relation.TransGen k.Extends v parent) : k.Explains name x := by
  fun_induction climb k visiting entered parents with
  | case1 => cases h
  | case2 visiting entered parent parents y hfound =>
      cases h
      obtain ⟨hnone, rfl⟩ := find_eq_error.1 hfound
      exact ⟨rfl, hnone, hparents parent List.mem_cons_self⟩
  | case3 visiting entered parent parents c hfound hcycle =>
      cases h
      have hc : c.name = parent := hk.name_eq (find_eq_ok.1 hfound)
      have hmem : parent ∈ visiting := by
        rw [← hc]
        simpa using hcycle
      obtain ⟨between, hbetween, hstep⟩ := hparents parent List.mem_cons_self
      refine ⟨rfl, ?_, ?_⟩
      · rw [hc]
        exact hbetween.tail hstep
      · rw [hc]
        exact hvisiting parent hmem parent List.mem_cons_self
  | case4 visiting entered parent parents c hfound hnew hold ih =>
      exact ih h (fun p hp => hparents p (List.mem_cons_of_mem _ hp))
        fun v hv p hp => hvisiting v hv p (List.mem_cons_of_mem _ hp)
  | case5 visiting entered parent parents c hfound hnew hnot y hinner ih =>
      cases h
      have hfind : k.find? parent = some c := find_eq_ok.1 hfound
      have hc : c.name = parent := hk.name_eq hfind
      obtain ⟨between, hbetween, hstep⟩ := hparents parent List.mem_cons_self
      refine ih hinner ?_ ?_
      · intro p hp
        exact ⟨parent, hbetween.tail hstep, c, hfind, hp⟩
      · exact above_parents_of_enter hfind hc fun v hv => hvisiting v hv parent List.mem_cons_self
  | case6 visiting entered parent parents c hfound hnew hnot inner hinner ih₁ ih₂ =>
      exact ih₂ h (fun p hp => hparents p (List.mem_cons_of_mem _ hp))
        fun v hv p hp => hvisiting v hv p (List.mem_cons_of_mem _ hp)

theorem explains_of_hierarchy (hk : k.Keyed) (hc : k.find? name = some c) (h : k.hierarchy c = .error x) :
    k.Explains name x := by
  cases hk.name_eq hc
  unfold hierarchy at h
  cases hclimb : k.climb [c.name] (.start c) c.extendsFrom with
  | ok result =>
      rw [hclimb] at h
      cases h
  | error y =>
      rw [hclimb] at h
      cases h
      have hstep : ∀ p ∈ c.extendsFrom, k.Extends c.name p := fun p hp => ⟨c, hc, hp⟩
      refine explains_of_climb hk hclimb (fun p hp => ⟨c.name, .refl, hstep p hp⟩) ?_
      intro v hv p hp
      rw [List.mem_singleton.1 hv]
      exact .single (hstep p hp)

/-- If nothing that is reached is missing, a failure reports a cycle. -/
theorem Explains.cycle (h : k.Explains name x) (hcomplete : k.Complete name) :
    ∃ culprit, x = .configurationCycle k.ownerName culprit ∧ k.Reaches name culprit ∧ k.ReachesItself culprit := by
  cases x with
  | configurationCycle project culprit =>
      obtain ⟨rfl, hreaches, hitself⟩ := h
      exact ⟨culprit, rfl, hreaches, hitself⟩
  | noSuchConfiguration project culprit =>
      obtain ⟨_, hnone, between, hreaches, hstep⟩ := h
      obtain ⟨d, hd⟩ := hcomplete culprit (hreaches.tail hstep)
      rw [hnone] at hd
      cases hd
  | _ => exact h.elim

theorem founded_of_hierarchy (hk : k.Keyed) (hc : k.find? name = some c) {members : List Configuration}
    (h : k.hierarchy c = .ok members) : k.Founded name := by
  obtain ⟨whole, ⟨above, habove, _⟩, _⟩ := unfolding_of_hierarchy hk h
  exact .intro hc habove.founded

theorem exists_hierarchy_iff_reaches (hk : k.Keyed) (hc : k.find? name = some c) :
    (∃ members, k.hierarchy c = .ok members) ↔
      k.Complete name ∧ ∀ other, k.Reaches name other → ¬ k.ReachesItself other := by
  constructor
  · rintro ⟨members, h⟩
    have hfounded := founded_of_hierarchy hk hc h
    exact ⟨hfounded.complete, hfounded.acyclic⟩
  · rintro ⟨hcomplete, hacyclic⟩
    cases h : k.hierarchy c with
    | ok members => exact ⟨members, rfl⟩
    | error x =>
        obtain ⟨culprit, _, hreaches, hitself⟩ := (explains_of_hierarchy hk hc h).cycle hcomplete
        exact absurd hitself (hacyclic culprit hreaches)

/-- A registered configuration has a hierarchy exactly if its name is founded. -/
theorem exists_hierarchy_iff (hk : k.Keyed) (hc : k.find? name = some c) :
    (∃ members, k.hierarchy c = .ok members) ↔ k.Founded name := by
  constructor
  · rintro ⟨members, h⟩
    exact founded_of_hierarchy hk hc h
  · intro hfounded
    exact (exists_hierarchy_iff_reaches hk hc).2 ⟨hfounded.complete, hfounded.acyclic⟩

/-- In every container that a run leads to, and for every configuration that is registered: there is a hierarchy
exactly if every name that is reached is registered and does not reach itself. Where there is none, the failure names
one that is not registered or that reaches itself; and if none is missing, a cycle is reported exactly if there is
one, wherever it is. -/
theorem hierarchy_fails_exactly {owner : ProjectPath} {ownerName : String} (hrun : (new owner ownerName).Run k)
    (hc : k.find? name = some c) :
    ((∃ members, k.hierarchy c = .ok members) ↔
      k.Complete name ∧ ∀ other, k.Reaches name other → ¬ k.ReachesItself other) ∧
    (∀ x, k.hierarchy c = .error x → k.Explains name x) ∧
    (k.Complete name →
      ((∃ culprit, k.hierarchy c = .error (.configurationCycle k.ownerName culprit)) ↔
        ∃ other, k.Reaches name other ∧ k.ReachesItself other)) := by
  have hk : k.Keyed := hrun.keyed (keyed_new owner ownerName)
  have hiff := exists_hierarchy_iff_reaches hk hc
  refine ⟨hiff, fun x => explains_of_hierarchy hk hc, fun hcomplete => ⟨?_, ?_⟩⟩
  · rintro ⟨culprit, h⟩
    obtain ⟨_, hreaches, hitself⟩ := explains_of_hierarchy hk hc h
    exact ⟨culprit, hreaches, hitself⟩
  · rintro ⟨other, hreaches, hitself⟩
    cases h : k.hierarchy c with
    | ok members => exact absurd hitself ((hiff.1 ⟨members, h⟩).2 other hreaches)
    | error x =>
        obtain ⟨culprit, rfl, _⟩ := (explains_of_hierarchy hk hc h).cycle hcomplete
        exact ⟨culprit, rfl⟩

/-- Beside the two ways from the runtime to the core: a cycle that is entered from outside, and a parent that is
missing. -/
def tangled : Container :=
  let k := (layered.register (extending "spoke" ["core", "rim"])).1
  let k := (k.register (extending "rim" ["hub"])).1
  let k := (k.register (extending "hub" ["core", "rim"])).1
  (k.register (extending "lost" ["impl", "gone"])).1

theorem run_tangled : (new .root "root project 'shop'").Run tangled :=
  (((((((Run.refl _).register _).register _).register _).register _).register _).register _).register _

def failure? {ε α : Type} : Except ε α → Option ε
  | .ok _ => none
  | .error x => some x

theorem eq_error_of_failure? {ε α : Type} {r : Except ε α} {x : ε} (h : failure? r = some x) : r = .error x := by
  cases r with
  | ok a => cases h
  | error y =>
      cases h
      rfl

theorem hierarchy_fails_exactly_tangled :
    (∀ other, tangled.Reaches "runtime" other → ¬ tangled.ReachesItself other) ∧
      tangled.Reaches "spoke" "rim" ∧ tangled.ReachesItself "rim" ∧
      tangled.find? "gone" = none ∧ ∃ between, tangled.Reaches "lost" between ∧ tangled.Extends between "gone" := by
  have hruntime : tangled.find? "runtime" = some (tangled.own (extending "runtime" ["impl", "core"])) := rfl
  have hspoke : tangled.find? "spoke" = some (tangled.own (extending "spoke" ["core", "rim"])) := rfl
  have hlost : tangled.find? "lost" = some (tangled.own (extending "lost" ["impl", "gone"])) := rfl
  obtain ⟨hok, _, _⟩ := hierarchy_fails_exactly run_tangled hruntime
  obtain ⟨_, hcycle, _⟩ := hierarchy_fails_exactly run_tangled hspoke
  obtain ⟨_, hmissing, _⟩ := hierarchy_fails_exactly run_tangled hlost
  refine ⟨(hok.1 ?_).2, ?_⟩
  · cases h : tangled.hierarchy (tangled.own (extending "runtime" ["impl", "core"])) with
    | ok members => exact ⟨members, rfl⟩
    | error x =>
        have hsome : (tangled.hierarchy (tangled.own (extending "runtime" ["impl", "core"]))).isOk := by decide +kernel
        rw [h] at hsome
        cases hsome
  · obtain ⟨_, hreaches, hitself⟩ := hcycle (.configurationCycle "root project 'shop'" "rim")
      (eq_error_of_failure? (by decide +kernel))
    obtain ⟨_, hnone, hbetween⟩ := hmissing (.noSuchConfiguration "root project 'shop'" "gone")
      (eq_error_of_failure? (by decide +kernel))
    exact ⟨hreaches, hitself, hnone, hbetween⟩

end Container

end ProjectGraph
