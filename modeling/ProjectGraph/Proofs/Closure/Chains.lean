import ProjectGraph.Proofs.Build.Edges
import ProjectGraph.Proofs.Closure.History

/-!
Chains that nothing cuts: from a seed downwards, through transitive edges only, and past no exclude rule of an
edge further up. Each member of a closure stands at the end of such a chain of members, and the rules in force
below it are those that the chain carries.

The converse holds for the first arrivals only. Edges that are the same may differ in whether they are
transitive and in what they exclude, and the walk follows the one that came first. So what stands at the end of
a chain is reached, unless an edge of the chain was overtaken by one that is the same, and that one stops what
comes next.
-/

namespace ProjectGraph

namespace Store

variable {s : Store} {transitive : Bool} {seeds : List Dependency}

/-- The exclude rules that the dependencies of a chain carry. -/
def rulesAlong (chain : List Dependency) : List ExcludeRule := chain.flatMap (·.request.excludes)

/-- From a seed downwards, the last one in front. -/
inductive Chain (s : Store) (seeds : List Dependency) : List Dependency → Prop
  | seed {d : Dependency} (start : d ∈ seeds) : Chain s seeds [d]
  | step {d next : Dependency} {above : List Dependency} (chain : Chain s seeds (d :: above))
      (transitive : d.request.transitive = true) (below : next ∈ s.below d)
      (admitted : s.excluded (rulesAlong (d :: above)) next = false) : Chain s seeds (next :: d :: above)

theorem excluded_congr {rules rules' : List ExcludeRule} (h : ∀ r, r ∈ rules ↔ r ∈ rules') (d : Dependency) :
    s.excluded rules d = s.excluded rules' d := by
  have hany : ∀ matched : ExcludeRule → Bool, rules.any matched = rules'.any matched := by
    intro matched
    rw [Bool.eq_iff_iff, List.any_eq_true, List.any_eq_true]
    simp only [h]
  cases d with
  | module m => exact hany _
  | project e =>
      simp only [excluded]
      split
      · exact hany _
      · rfl

theorem mem_kids {m : Member} {d : Dependency} :
    d ∈ s.kids transitive m ↔ (m.dependency.request.transitive = true ∧ transitive = true) ∧
      d ∈ s.below m.dependency ∧ s.excluded m.rules d = false := by
  unfold kids
  split
  · rename_i h
    rw [Bool.and_eq_true] at h
    simp [h]
  · rename_i h
    rw [Bool.and_eq_true] at h
    simp [h]

/-- Only an edge has kids. -/
theorem exists_project_of_mem_kids {m : Member} {d : Dependency} (h : d ∈ s.kids transitive m) :
    ∃ e, m.dependency = .project e := by
  obtain ⟨dependency, rules⟩ := m
  cases dependency with
  | module n =>
      rw [kids_module] at h
      cases h
  | project e => exact ⟨e, rfl⟩

/-- Each member stands at the end of a chain of members, which carries its rules. -/
theorem InOrder.chain {members : List Member} {waiting : List Pending}
    (h : InOrder s transitive seeds members waiting) :
    ∀ m ∈ members, ∃ above, Chain s seeds (m.dependency :: above) ∧
      (∀ d ∈ above, d ∈ members.map (·.dependency)) ∧
      ∀ r, r ∈ m.rules ↔ r ∈ rulesAlong (m.dependency :: above) := by
  refine h.induction ?_ ?_
  · intro d hd
    refine ⟨[], .seed hd, by simp, ?_⟩
    intro r
    rw [Pending.mem_rules_member]
    simp [rulesAlong, Pending.member]
  · rintro m hm ⟨above, hchain, hmembers, hrules⟩ d hd
    obtain ⟨⟨htransitive, _⟩, hbelow, hadmitted⟩ := mem_kids.1 hd
    rw [excluded_congr hrules] at hadmitted
    refine ⟨m.dependency :: above, .step hchain htransitive hbelow hadmitted, ?_, ?_⟩
    · intro x hx
      rcases List.mem_cons.1 hx with rfl | hx
      · exact List.mem_map_of_mem hm
      · exact hmembers x hx
    · intro r
      have hsplit : r ∈ rulesAlong (d :: m.dependency :: above) ↔
          r ∈ d.request.excludes ∨ r ∈ rulesAlong (m.dependency :: above) := List.mem_append
      rw [Pending.mem_rules_member]
      show r ∈ m.rules ∨ r ∈ d.request.excludes ↔ r ∈ rulesAlong (d :: m.dependency :: above)
      rw [hsplit, ← hrules, or_comm]

end Store

namespace Build

variable {b : Build} {seeds reached chain : List Dependency}

/-- A chain from seeds that lead into a self-contained build leads into the build. -/
theorem SelfContained.into_of_chain (hb : b.SelfContained)
    (hseeds : ∀ e, .project e ∈ seeds → e.Into b) (h : b.store.Chain seeds chain) :
    ∀ e, .project e ∈ chain → e.Into b := by
  induction h with
  | seed start =>
      intro e he
      apply hseeds e
      rwa [List.mem_singleton.1 he]
  | @step d next above chain transitive below admitted ih =>
      intro e he
      rcases List.mem_cons.1 he with rfl | he
      · cases d with
        | module m => cases below
        | project x => exact hb.into_of_mem_below (ih x List.mem_cons_self) below
      · exact ih e he

/--
A dependency of the chain was overtaken: the first arrival of its kind, at the end of a chain of its own, stops
the next one, as it is not transitive, or as a rule of its chain excludes the next one. If seeds lead out of the
build, the first arrival may also lead elsewhere.
-/
def Overtaken (b : Build) (seeds reached chain : List Dependency) : Prop :=
  ∃ next d rest, next :: d :: rest <:+ chain ∧ ∃ first ∈ reached, (first == d) = true ∧
    ∃ above, b.store.Chain seeds (first :: above) ∧ (∀ x ∈ above, x ∈ reached) ∧
      (first.request.transitive = false ∨ b.store.excluded (Store.rulesAlong (first :: above)) next = true ∨
        next ∉ b.store.below first ∧ ∃ e, .project e ∈ seeds ∧ ¬ e.Into b)

theorem Overtaken.cons (h : b.Overtaken seeds reached chain) (d : Dependency) :
    b.Overtaken seeds reached (d :: chain) := by
  obtain ⟨next, x, rest, hsuffix, hfirst⟩ := h
  exact ⟨next, x, rest, hsuffix.trans (List.suffix_cons d chain), hfirst⟩

/-- The same dependency at the ends of two chains into the build has the same below it. -/
theorem SelfContained.mem_below_of_beq (hb : b.SelfContained) (hseeds : ∀ e, .project e ∈ seeds → e.Into b)
    {d d' next : Dependency} {above above' : List Dependency} (h : b.store.Chain seeds (d :: above))
    (h' : b.store.Chain seeds (d' :: above')) (hsame : d' == d) (hnext : next ∈ b.store.below d) :
    next ∈ b.store.below d' := by
  cases d with
  | module m => cases hnext
  | project e =>
      cases d' with
      | module m => cases hsame
      | project e' =>
          have he : e.Into b := hb.into_of_chain hseeds h e List.mem_cons_self
          have he' : e'.Into b := hb.into_of_chain hseeds h' e' List.mem_cons_self
          exact Store.mem_below_of_destination hnext (destination_eq_of_beq he he' (BEq.symm hsame))

/-- A member that does not hand on what lies below a dependency of its kind overtakes this one. -/
theorem SelfContained.overtaken (hb : b.SelfContained) {members : List Member}
    (hhistory : b.store.History true seeds members []) {m : Member} (hm : m ∈ members) {d next : Dependency}
    {above : List Dependency} (hd : b.store.Chain seeds (d :: above)) (hnext : next ∈ b.store.below d)
    (hsame : m.dependency == d) (hkid : next ∉ b.store.kids true m) :
    b.Overtaken seeds (members.map (·.dependency)) (next :: d :: above) := by
  obtain ⟨earlier, hearlier, hmembers, hrules⟩ := hhistory.chain m hm
  refine ⟨next, d, above, List.suffix_refl _, m.dependency, List.mem_map_of_mem hm, hsame, earlier, hearlier,
    hmembers, ?_⟩
  rw [← Store.excluded_congr hrules]
  by_cases hopen : m.dependency.request.transitive = true
  · by_cases hbelow : next ∈ b.store.below m.dependency
    · -- All that can keep a kid away here is a rule.
      have hexcluded : ¬ b.store.excluded m.rules next = false := by
        intro hadmitted
        exact hkid (Store.mem_kids.2 ⟨⟨hopen, rfl⟩, hbelow, hadmitted⟩)
      rw [Bool.not_eq_false] at hexcluded
      exact Or.inr (Or.inl hexcluded)
    · -- From seeds into the build both would lead to the same place.
      refine Or.inr (Or.inr ⟨hbelow, ?_⟩)
      by_contra hnone
      have hseeds : ∀ e, .project e ∈ seeds → e.Into b := by
        intro e he
        by_contra hout
        exact hnone ⟨e, he, hout⟩
      exact hbelow (hb.mem_below_of_beq hseeds hd hearlier hsame hnext)
  · exact Or.inl (Bool.eq_false_iff.2 hopen)

/-- What stands at the end of a chain is reached, unless something of the chain was overtaken. -/
theorem chain_arrives_unless_overtaken (hb : b.SelfContained) {c : Closure}
    (h : (b.store.closure ((Intake.empty true).addDependencies seeds)).result = .ok c)
    {x : Dependency} {above : List Dependency} (hchain : b.store.Chain seeds (x :: above)) :
    (∃ y ∈ c.dependencies, (y == x) = true) ∨ b.Overtaken seeds c.dependencies (x :: above) := by
  obtain ⟨members, hhistory, hc⟩ := Store.history_of_closure h
  have harrives : ∀ p ∈ b.store.arrivals true seeds members, ∃ y ∈ c.dependencies, (y == p.dependency) = true := by
    intro p hp
    obtain ⟨m, hm, hmp⟩ := hhistory.exists_mem_beq hp
    exact ⟨m.dependency, hc ▸ List.mem_map_of_mem hm, hmp⟩
  generalize hwhole : x :: above = whole at hchain
  induction hchain generalizing x above with
  | @seed d start =>
      cases hwhole
      exact Or.inl (harrives ⟨d, []⟩ (Store.mem_arrivals.2 (Or.inl ⟨d, start, rfl⟩)))
  | @step d next above hd transitive below admitted ih =>
      cases hwhole
      rcases ih rfl with ⟨first, hfirst, hsame⟩ | hover
      · -- The first arrival of the kind of `d` either hands `next` on or overtakes `d`.
        rw [hc] at hfirst
        obtain ⟨m, hm, rfl⟩ := List.mem_map.1 hfirst
        by_cases hkid : next ∈ b.store.kids true m
        · exact Or.inl (harrives ⟨next, m.rules⟩ (Store.mem_arrivals.2 (Or.inr ⟨m, hm, next, hkid, rfl⟩)))
        · rw [hc]
          exact Or.inr (hb.overtaken hhistory hm hd below hsame hkid)
      · exact Or.inr (hover.cons next)

/-! ### Lost at the end of a chain -/

/-- The shop, beside another build that has a library of its own at the same path, which needs nothing. -/
def shopBeside : Build :=
  let other := ((start shop.store "other" ⟨0⟩).addProject ⟨["lib"]⟩).1
  { shop with store := (other.declare ⟨4⟩ (jarOf "lib" [])).store }

/-- Edges that are the same as the one from the application to the library, but hand on less. -/
def weakerEdges : List Edge :=
  [(offerOf 1 "lib").setTransitive false, (offerOf 1 "lib").addExclude ⟨some "g", some "m"⟩, offerOf 4 "lib"]

/-- From the application to the module, by way of the library. -/
def chainToModule : List Dependency :=
  [.module moduleOfLib, .project (offerOf 1 "lib"), .project (offerOf 2 "app")]

theorem chain_shopBeside (first : Dependency) :
    shopBeside.store.Chain [first, .project (offerOf 2 "app")] chainToModule := by
  have happ : shopBeside.store.below (.project (offerOf 2 "app")) = [.project (offerOf 1 "lib")] := by
    decide +kernel
  have hlib : shopBeside.store.below (.project (offerOf 1 "lib")) =
      [.module moduleOfLib, .project (offerOf 2 "app")] := by
    decide +kernel
  refine .step (.step (.seed (by simp)) rfl ?_ ?_) rfl ?_ ?_
  · simp [happ]
  · decide +kernel
  · simp [hlib]
  · decide +kernel

theorem closure_shopBeside : ∀ first ∈ weakerEdges,
    (shopBeside.store.closure ((Intake.empty true).addDependencies
      [.project first, .project (offerOf 2 "app")])).result.toOption.map (·.dependencies) =
        some [.project first, .project (offerOf 2 "app")] := by
  decide +kernel

theorem selfContained_shopBeside : shopBeside.SelfContained := by decide +kernel

/-- Edges are not the same as the module. -/
theorem lost_shopBeside (first : Edge) :
    ¬ ∃ y ∈ [Dependency.project first, .project (offerOf 2 "app")], (y == .module moduleOfLib) = true := by
  rintro ⟨y, hy, hsame⟩
  rcases List.mem_pair.1 hy with rfl | rfl
  · cases hsame
  · cases hsame

/-- A weaker edge to the library that came first overtakes the one of the application, and the module is lost. -/
theorem chain_lost_shopBeside : shopBeside.SelfContained ∧ ∀ first ∈ weakerEdges,
    let seeds := [.project first, .project (offerOf 2 "app")]
    ∃ c, (shopBeside.store.closure ((Intake.empty true).addDependencies seeds)).result = .ok c ∧
      shopBeside.store.Chain seeds chainToModule ∧
      ¬ ∃ y ∈ c.dependencies, (y == .module moduleOfLib) = true := by
  refine ⟨selfContained_shopBeside, ?_⟩
  intro first hfirst seeds
  obtain ⟨c, hok, hc⟩ := exists_eq_ok (closure_shopBeside first hfirst)
  refine ⟨c, hok, chain_shopBeside (.project first), ?_⟩
  rw [hc]
  exact lost_shopBeside first

theorem chain_overtaken_shopBeside :
    let seeds := [.project ((offerOf 1 "lib").setTransitive false), .project (offerOf 2 "app")]
    ∃ c, (shopBeside.store.closure ((Intake.empty true).addDependencies seeds)).result = .ok c ∧
      shopBeside.store.Chain seeds chainToModule ∧
      (¬ ∃ y ∈ c.dependencies, (y == .module moduleOfLib) = true) ∧
      shopBeside.Overtaken seeds c.dependencies chainToModule := by
  intro seeds
  obtain ⟨c, hok, hc⟩ := exists_eq_ok (closure_shopBeside _ List.mem_cons_self)
  have hchain := chain_shopBeside (.project ((offerOf 1 "lib").setTransitive false))
  have hlost : ¬ ∃ y ∈ c.dependencies, (y == .module moduleOfLib) = true := by
    rw [hc]
    exact lost_shopBeside _
  -- As the module is not there, the other half of the theorem holds.
  exact ⟨c, hok, hchain, hlost,
    (chain_arrives_unless_overtaken selfContained_shopBeside hok hchain).resolve_left hlost⟩

end Build

end ProjectGraph
