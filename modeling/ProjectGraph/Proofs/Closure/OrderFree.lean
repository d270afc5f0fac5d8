import ProjectGraph.Proofs.Build.Reordered
import ProjectGraph.Proofs.Closure.Attained

/-!
Closures that do not go by order. Two edges that are the same may still differ in where they lead, in whether they
are transitive and in what they exclude, and a closure keeps the first one that comes. Where no two of them differ,
nothing is left that order could decide: a closure holds all that is attained, and it fails exactly if an attained
edge does. Neither depends on the order of seeds, declared dependencies or parents.

Seeds count here like declared edges. A seed that leads to another build, or hands on less than an edge that is the
same, keeps that edge out if it comes first.
-/

namespace ProjectGraph

/-- The same intake, with its dependencies and constraints in another order. -/
structure Intake.Reordered (i i' : Intake) : Prop where
  transitive_eq : i'.transitive = i.transitive
  dependencies : i.dependencies.Perm i'.dependencies
  constraints : i.constraints.Perm i'.constraints

theorem Intake.Reordered.symm {i i' : Intake} (h : i.Reordered i') : i'.Reordered i where
  transitive_eq := h.transitive_eq.symm
  dependencies := h.dependencies.symm
  constraints := h.constraints.symm

namespace Build

variable {b b' : Build} {i i' : Intake} {seeds seeds' : List Dependency} {transitive : Bool} {e e' : Edge}
  {d d' : Dependency} {c c' : Closure}

/-- The edges that a closure of the seeds may meet: those among the seeds, and those that are declared. -/
def inPlay (b : Build) (seeds : List Dependency) : List Edge := seeds.filterMap Dependency.edge? ++ b.edges

/-- All edges in play lead into the build and carry no exclude rule, and those that are the same agree on whether they
are transitive. -/
structure Uniform (b : Build) (seeds : List Dependency) : Prop where
  into : ∀ e ∈ b.inPlay seeds, e.Into b
  plain : ∀ e ∈ b.inPlay seeds, e.request.excludes = []
  flags : ∀ e ∈ b.inPlay seeds, ∀ e' ∈ b.inPlay seeds, (e == e') = true →
    e.request.transitive = e'.request.transitive

instance (b : Build) (seeds : List Dependency) : Decidable (b.Uniform seeds) :=
  decidable_of_iff ((∀ e ∈ b.inPlay seeds, e.Into b) ∧ (∀ e ∈ b.inPlay seeds, e.request.excludes = []) ∧
    ∀ e ∈ b.inPlay seeds, ∀ e' ∈ b.inPlay seeds, (e == e') = true → e.request.transitive = e'.request.transitive)
    ⟨fun ⟨into, plain, flags⟩ => ⟨into, plain, flags⟩, fun h => ⟨h.into, h.plain, h.flags⟩⟩

theorem mem_inPlay : e ∈ b.inPlay seeds ↔ .project e ∈ seeds ∨ e ∈ b.edges := by
  unfold inPlay
  rw [List.mem_append, Dependency.mem_filterMap_edge?]

namespace Uniform

/-! ### Edges in play -/

/-- Edges in play that are the same are equal. -/
theorem eq_of_beq (hu : b.Uniform seeds) (he : e ∈ b.inPlay seeds) (he' : e' ∈ b.inPlay seeds)
    (h : (e == e') = true) : e = e' := by
  have hidentity := Edge.beq_iff.1 h
  simp only [Edge.identity, Prod.mk.injEq] at hidentity
  obtain ⟨hpath, htarget, hbuilds, hattributes, hcapabilities⟩ := hidentity
  have hproducer := producer_eq_of_path (hu.into e he) (hu.into e' he') hpath
  have hflags := hu.flags e he e' he' h
  have hexcludes := (hu.plain e he).trans (hu.plain e' he').symm
  obtain ⟨_, _, _, ⟨_, _, _, _, _⟩⟩ := e
  obtain ⟨_, _, _, ⟨_, _, _, _, _⟩⟩ := e'
  simp_all

theorem mem_inPlay_of_attains (hu : b.Uniform seeds) (h : b.store.Attains transitive seeds d) :
    ∀ e, d = .project e → e ∈ b.inPlay seeds := by
  intro e he
  exact mem_inPlay.2 (seed_or_edge_of_attains (fun x hx => hu.into x (mem_inPlay.2 hx)) h e he)

/-- So attained dependencies that are the same are equal. -/
theorem equal (hu : b.Uniform seeds) (h : ∀ e, d = .project e → e ∈ b.inPlay seeds)
    (h' : ∀ e, d' = .project e → e ∈ b.inPlay seeds) (hsame : (d == d') = true) : d = d' := by
  cases d with
  | module m =>
      cases d' with
      | module m' => exact congrArg Dependency.module (of_decide_eq_true hsame)
      | project e' => cases hsame
  | project e =>
      cases d' with
      | module m' => cases hsame
      | project e' => exact congrArg Dependency.project (hu.eq_of_beq (h e rfl) (h' e' rfl) hsame)

/-! ### What a closure holds, and when there is one -/

theorem mem_iff (hu : b.Uniform i.dependencies) (h : (b.store.closure i).result = .ok c) :
    d ∈ c.dependencies ↔ b.store.Attains i.transitive i.dependencies d := by
  refine Store.mem_iff_attains h ?_ ?_
  · intro e he
    exact hu.plain e (hu.mem_inPlay_of_attains he e rfl)
  · intro d d' hd hd' hsame
    exact hu.equal (hu.mem_inPlay_of_attains hd) (hu.mem_inPlay_of_attains hd') hsame

theorem exists_closure_iff (hu : b.Uniform i.dependencies) : (∃ c, (b.store.closure i).result = .ok c) ↔
    ∀ e, b.store.Attains i.transitive i.dependencies (.project e) → ¬ b.store.Fails e := by
  constructor
  · rintro ⟨c, hc⟩ e he
    exact Store.not_fails_of_mem hc ((hu.mem_iff hc).2 he)
  · exact Store.exists_closure_of_attains

/-! ### From one order to another -/

theorem reordered (hu : b.Uniform seeds) (hb : b.Reordered b') (hseeds : seeds.Perm seeds') : b'.Uniform seeds' := by
  have hback : ∀ e ∈ b'.inPlay seeds', e ∈ b.inPlay seeds := by
    intro e he
    rcases mem_inPlay.1 he with he | he
    · exact mem_inPlay.2 (Or.inl (hseeds.symm.subset he))
    · exact mem_inPlay.2 (Or.inr (hb.symm.mem_edges he))
  exact ⟨fun e he => hb.into (hu.into e (hback e he)), fun e he => hu.plain e (hback e he),
    fun e he e' he' => hu.flags e (hback e he) e' (hback e' he')⟩

theorem attains (hu : b.Uniform seeds) (hc : b.Coherent) (hb : b.Reordered b') (hseeds : seeds.Perm seeds')
    (h : b.store.Attains transitive seeds d) : b'.store.Attains transitive seeds' d := by
  induction h with
  | seed start => exact .seed (hseeds.subset start)
  | @step d next before opened below ih =>
      cases d with
      | module m => cases below
      | project e =>
          have he : e.Into b := hu.into e (hu.mem_inPlay_of_attains before e rfl)
          have hholds : b.store.Holds (·.dependencies) e next :=
            Store.contains_below_iff.1 (List.contains_iff_exists_mem_beq.2 ⟨next, below, BEq.rfl⟩)
          have hholds' : b'.store.Holds (·.dependencies) e next :=
            hb.store.holds (hc.keyedAt he) (fun d d' hd x hx => hd.mem_dependencies hx) hholds
          obtain ⟨next', below', hsame⟩ := List.contains_iff_exists_mem_beq.1 (Store.contains_below_iff.2 hholds')
          have hnext' : b'.store.Attains transitive seeds' next' := .step ih opened below'
          -- What lies there in the other order is the same, and so it is equal.
          have hu' := hu.reordered hb hseeds
          have hplay : ∀ x, next = .project x → x ∈ b'.inPlay seeds' := by
            intro x hx
            rcases mem_inPlay.1 (hu.mem_inPlay_of_attains (.step before opened below) x hx) with hx | hx
            · exact mem_inPlay.2 (Or.inl (hseeds.subset hx))
            · exact mem_inPlay.2 (Or.inr (hb.mem_edges hx))
          rwa [hu'.equal hplay (hu'.mem_inPlay_of_attains hnext') hsame]

theorem exists_closure (hu : b.Uniform i.dependencies) (hc : b.Coherent) (hb : b.Reordered b')
    (hi : i.Reordered i') (h : ∃ c, (b.store.closure i).result = .ok c) :
    ∃ c', (b'.store.closure i').result = .ok c' := by
  have hu' := hu.reordered hb hi.dependencies
  rw [hu.exists_closure_iff] at h
  rw [hu'.exists_closure_iff, hi.transitive_eq]
  intro e he
  have hback := hu'.attains (hb.coherent hc) hb.symm hi.dependencies.symm he
  have hinto : e.Into b := hu.into e (hu.mem_inPlay_of_attains hback e rfl)
  exact hb.store.not_fails (hc.keyedAt hinto) (h e hback)

/-- All that the closure holds is held in the other order as well. -/
theorem contained (hu : b.Uniform i.dependencies) (hc : b.Coherent) (hb : b.Reordered b') (hi : i.Reordered i')
    (h : (b.store.closure i).result = .ok c) (h' : (b'.store.closure i').result = .ok c') :
    (∀ d, c.dependencies.contains d = true → c'.dependencies.contains d = true) ∧
      (∀ x, c.constraints.contains x = true → c'.constraints.contains x = true) ∧
      ∀ f, c.files.contains f = true → c'.files.contains f = true := by
  have hu' := hu.reordered hb hi.dependencies
  have hmem : ∀ d ∈ c.dependencies, d ∈ c'.dependencies := by
    intro d hd
    rw [hu'.mem_iff h', hi.transitive_eq]
    exact hu.attains hc hb hi.dependencies ((hu.mem_iff h).1 hd)
  have hkeyed : ∀ e, .project e ∈ c.dependencies → b.store.KeyedAt e := by
    intro e he
    exact hc.keyedAt (hu.into e (hu.mem_inPlay_of_attains ((hu.mem_iff h).1 he) e rfl))
  refine ⟨?_, ?_, ?_⟩
  · intro d hd
    obtain ⟨d', hd', hsame⟩ := List.contains_iff_exists_mem_beq.1 hd
    exact List.contains_iff_exists_mem_beq.2 ⟨d', hmem d' hd', hsame⟩
  · intro x hx
    rw [Store.contains_constraints_iff h] at hx
    rw [Store.contains_constraints_iff h', hi.transitive_eq]
    rcases hx with hx | ⟨_, hd, e, rfl, hopened, hholds⟩
    · exact Or.inl (List.contains_iff_mem.2 (hi.constraints.subset (List.contains_iff_mem.1 hx)))
    · refine Or.inr ⟨_, hmem _ hd, e, rfl, hopened, ?_⟩
      refine hb.store.holds (hkeyed e hd) ?_ hholds
      intro d d' hreordered y hy
      rwa [hreordered.constraints_eq]
  · intro f hf
    obtain ⟨e, he, hholds⟩ := (Store.contains_files_iff h).1 hf
    refine (Store.contains_files_iff h').2 ⟨e, hmem _ he, ?_⟩
    refine hb.store.holds (hkeyed e he) ?_ hholds
    intro d d' hreordered y hy
    rwa [hreordered.artifacts_eq]

end Uniform

/-- Whether there is a closure, and which dependencies, constraints and files it has, is the same in all orders. -/
theorem closure_order_free (hb : b.Reachable) (hu : b.Uniform i.dependencies) (hreordered : b.Reordered b')
    (hi : i.Reordered i') :
    ((∃ c, (b.store.closure i).result = .ok c) ↔ ∃ c', (b'.store.closure i').result = .ok c') ∧
    ∀ c c', (b.store.closure i).result = .ok c → (b'.store.closure i').result = .ok c' →
      (∀ d, c.dependencies.contains d = c'.dependencies.contains d) ∧
        (∀ x, c.constraints.contains x = c'.constraints.contains x) ∧
        ∀ f, c.files.contains f = c'.files.contains f := by
  have hc := hb.coherent
  have hc' := hreordered.coherent hc
  have hu' := hu.reordered hreordered hi.dependencies
  refine ⟨⟨hu.exists_closure hc hreordered hi, hu'.exists_closure hc' hreordered.symm hi.symm⟩, ?_⟩
  intro c c' h h'
  obtain ⟨hds, hxs, hfs⟩ := hu.contained hc hreordered hi h h'
  obtain ⟨hds', hxs', hfs'⟩ := hu'.contained hc' hreordered.symm hi.symm h' h
  exact ⟨fun d => Bool.eq_iff_iff.2 ⟨hds d, hds' d⟩, fun x => Bool.eq_iff_iff.2 ⟨hxs x, hxs' x⟩,
    fun f => Bool.eq_iff_iff.2 ⟨hfs f, hfs' f⟩⟩

/-- The shop in two orders: what is reached comes in another order, and is the same. -/
theorem closure_order_free_shop :
    let i := (Intake.empty true).addDependencies [.project (offerOf 2 "app"), .project (offerOf 1 "lib")]
    let i' := (Intake.empty true).addDependencies [.project (offerOf 1 "lib"), .project (offerOf 2 "app")]
    ∃ c c', (shop.store.closure i).result = .ok c ∧ (shop.turned.store.closure i').result = .ok c' ∧
      c.dependencies ≠ c'.dependencies ∧ (∀ d, c.dependencies.contains d = c'.dependencies.contains d) ∧
      ∀ f, c.files.contains f = c'.files.contains f := by
  intro i i'
  have hwalk : (shop.store.closure i).result.toOption.map (·.dependencies) =
      some [.project (offerOf 2 "app"), .project (offerOf 1 "lib"), .module moduleOfLib] := by
    decide +kernel
  have hwalk' : (shop.turned.store.closure i').result.toOption.map (·.dependencies) =
      some [.project (offerOf 1 "lib"), .project (offerOf 2 "app"), .module moduleOfLib] := by
    decide +kernel
  obtain ⟨c, hok, hc⟩ := exists_eq_ok hwalk
  obtain ⟨c', hok', hc'⟩ := exists_eq_ok hwalk'
  have huniform : shop.Uniform i.dependencies := by decide +kernel
  have hi : i.Reordered i' := ⟨rfl, .swap _ _ _, .refl _⟩
  obtain ⟨_, hsame⟩ := closure_order_free shop_reachable huniform shop.reordered_turned hi
  obtain ⟨hds, _, hfs⟩ := hsame c c' hok hok'
  refine ⟨c, c', hok, hok', ?_, hds, hfs⟩
  rw [hc, hc']
  decide

/-! ### Seeds that are not uniform -/

theorem shopBeside_reachable : shopBeside.Reachable := by
  refine shop_reachable.elsewhere _ ?_
  intro path id hid
  have hnumbers : ∀ entry ∈ shop.tree.projects.toList, (⟨4⟩ : ProjectId) ≠ entry.2 := by decide +kernel
  have hnumber := hnumbers (path, id) (Std.ExtTreeMap.mem_toList_iff_getElem?_eq_some.2 hid)
  obtain ⟨p, hp, _⟩ := shop_reachable.coherent path id hid
  -- The other build adds projects and changes one of its own.
  show (((start shop.store "other" ⟨0⟩).addProject ⟨["lib"]⟩).1.store.modify ⟨4⟩ _).project? id = _
  rw [Store.project?_modify, if_neg hnumber, project?_addProject (project?_start hp _ _) _, hp]

/-- A seed that leads to the other build, or is not transitive, keeps out an edge that is the same, and all that comes
with it, exactly if it comes first. -/
theorem closure_order_counts_shopBeside :
    shopBeside.Reachable ∧ shopBeside.SelfContained ∧ (∀ e ∈ shopBeside.edges, e.request.excludes = []) ∧
      (∀ e ∈ shopBeside.edges, ∀ e' ∈ shopBeside.edges, (e == e') = true →
        e.request.transitive = e'.request.transitive) ∧
      ∀ stray ∈ [offerOf 4 "lib", (offerOf 1 "lib").setTransitive false],
        let i := (Intake.empty true).addDependencies [.project stray, .project (offerOf 1 "lib")]
        let i' := (Intake.empty true).addDependencies [.project (offerOf 1 "lib"), .project stray]
        stray.request.excludes = [] ∧ i.Reordered i' ∧
          ∃ c c', (shopBeside.store.closure i).result = .ok c ∧ (shopBeside.store.closure i').result = .ok c' ∧
            c.dependencies.contains (.module moduleOfLib) = false ∧
            c'.dependencies.contains (.module moduleOfLib) = true := by
  refine ⟨shopBeside_reachable, selfContained_shopBeside, by decide +kernel, by decide +kernel, ?_⟩
  intro stray hstray i i'
  have hwalks : ∀ stray ∈ [offerOf 4 "lib", (offerOf 1 "lib").setTransitive false],
      (shopBeside.store.closure ((Intake.empty true).addDependencies
        [.project stray, .project (offerOf 1 "lib")])).result.toOption.map
          (·.dependencies.contains (.module moduleOfLib)) = some false ∧
      (shopBeside.store.closure ((Intake.empty true).addDependencies
        [.project (offerOf 1 "lib"), .project stray])).result.toOption.map
          (·.dependencies.contains (.module moduleOfLib)) = some true := by
    decide +kernel
  have hplain : ∀ stray ∈ [offerOf 4 "lib", (offerOf 1 "lib").setTransitive false], stray.request.excludes = [] := by
    decide
  obtain ⟨c, hok, hc⟩ := exists_eq_ok (hwalks stray hstray).1
  obtain ⟨c', hok', hc'⟩ := exists_eq_ok (hwalks stray hstray).2
  exact ⟨hplain stray hstray, ⟨rfl, .swap _ _ _, .refl _⟩, c, c', hok, hok', hc, hc'⟩

end Build

end ProjectGraph
