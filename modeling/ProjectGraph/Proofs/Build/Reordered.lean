import ProjectGraph.Proofs.Build.Edges
import ProjectGraph.Proofs.Closure.Held
import ProjectGraph.Proofs.Container.Hierarchy
import ProjectGraph.Proofs.TaskSet.Reachability

/-!
Builds that differ in orders only: in any configurations the declared dependencies or the parents may stand in
another order. All relations here are symmetric, so each lemma takes something from one build to the other.

An edge leads to the same configuration but for the order. What is founded stays founded, so a hierarchy is there or
not there in both builds, and its members hold the same.
-/

namespace ProjectGraph

/-- The same configuration, with its dependencies and its parents in another order. -/
inductive Configuration.Reordered (c : Configuration) : Configuration → Prop
  | mk {dependencies : List Dependency} {extendsFrom : List String}
      (dependencies_perm : c.dependencies.Perm dependencies) (extendsFrom_perm : c.extendsFrom.Perm extendsFrom) :
      Reordered c { c with dependencies, extendsFrom }

structure Container.Reordered (k k' : Container) : Prop where
  owner_eq : k'.owner = k.owner
  ownerName_eq : k'.ownerName = k.ownerName
  entries : ∀ name, Option.Rel Configuration.Reordered (k.find? name) (k'.find? name)

inductive Project.Reordered (p : Project) : Project → Prop
  | mk {container : Container} (reordered : p.container.Reordered container) : Reordered p { p with container }

def Store.Reordered (s s' : Store) : Prop :=
  ∀ id, Option.Rel Project.Reordered (s.project? id) (s'.project? id)

/-- The same tree, over a store in another order. -/
structure Build.Reordered (b b' : Build) : Prop where
  tree_eq : b'.tree = b.tree
  store : b.store.Reordered b'.store

theorem rel_symm {α : Type} {r : α → α → Prop} (hr : ∀ a b, r a b → r b a) {o o' : Option α}
    (h : Option.Rel r o o') : Option.Rel r o' o := by
  cases h with
  | none => exact .none
  | some h => exact .some (hr _ _ h)

theorem exists_of_rel {α β : Type} {r : α → β → Prop} {o : Option α} {o' : Option β} {a : α}
    (h : Option.Rel r o o') (ha : o = some a) : ∃ a', o' = some a' ∧ r a a' := by
  cases h with
  | none => cases ha
  | some h =>
      cases ha
      exact ⟨_, rfl, h⟩

/-! ### Configurations -/

namespace Configuration.Reordered

variable {c c' : Configuration}

theorem symm (h : c.Reordered c') : c'.Reordered c := by
  cases h with
  | mk hdependencies hextends => exact .mk hdependencies.symm hextends.symm

theorem roles_eq (h : c.Reordered c') : c'.roles = c.roles := by
  cases h with
  | mk _ _ => rfl

theorem name_eq (h : c.Reordered c') : c'.name = c.name := by
  cases h with
  | mk _ _ => rfl

theorem owner_eq (h : c.Reordered c') : c'.owner = c.owner := by
  cases h with
  | mk _ _ => rfl

theorem constraints_eq (h : c.Reordered c') : c'.constraints = c.constraints := by
  cases h with
  | mk _ _ => rfl

theorem artifacts_eq (h : c.Reordered c') : c'.artifacts = c.artifacts := by
  cases h with
  | mk _ _ => rfl

theorem mem_extendsFrom (h : c.Reordered c') {parent : String} (hp : parent ∈ c.extendsFrom) :
    parent ∈ c'.extendsFrom := by
  cases h with
  | mk _ hextends => exact hextends.subset hp

theorem mem_dependencies (h : c.Reordered c') {d : Dependency} (hd : d ∈ c.dependencies) : d ∈ c'.dependencies := by
  cases h with
  | mk hdependencies _ => exact hdependencies.subset hd

end Configuration.Reordered

/-! ### Containers -/

namespace Container.Reordered

variable {k k' : Container} {c c' d : Configuration} {name : String}

theorem symm (h : k.Reordered k') : k'.Reordered k where
  owner_eq := h.owner_eq.symm
  ownerName_eq := h.ownerName_eq.symm
  entries name := rel_symm (fun _ _ => Configuration.Reordered.symm) (h.entries name)

theorem find? (h : k.Reordered k') (hc : k.find? name = some c) : ∃ c', k'.find? name = some c' ∧ c.Reordered c' :=
  exists_of_rel (h.entries name) hc

theorem keyed (h : k.Reordered k') (hk : k.Keyed) : k'.Keyed := by
  constructor <;> intro name c' hc' <;> obtain ⟨c, hc, hreordered⟩ := h.symm.find? hc'
  · rw [← hreordered.name_eq]
    exact hk.name_eq hc
  · rw [← hreordered.owner_eq, h.owner_eq]
    exact hk.owner_eq hc

theorem founded (h : k.Reordered k') (hname : k.Founded name) : k'.Founded name := by
  induction hname with
  | @intro name c found parents ih =>
      obtain ⟨c', hc', hreordered⟩ := h.find? found
      exact .intro hc' fun parent hparent => ih parent (hreordered.symm.mem_extendsFrom hparent)

theorem inherits (h : k.Reordered k') (hc : c.Reordered c') (hd : k.Inherits c d) :
    ∃ d', d.Reordered d' ∧ k'.Inherits c' d' := by
  induction hd with
  | self => exact ⟨c', hc, .self⟩
  | @parent d e name before mem found ih =>
      obtain ⟨d', hd', hbelow⟩ := ih
      obtain ⟨e', he', hreordered⟩ := h.find? found
      exact ⟨e', hreordered, .parent hbelow (hd'.mem_extendsFrom mem) he'⟩

/-- A hierarchy is there in both containers, and its members correspond. -/
theorem hierarchy (h : k.Reordered k') (hk : k.Keyed) (hfind : k.find? name = some c)
    (hfind' : k'.find? name = some c') (hc : c.Reordered c') {members : List Configuration}
    (hm : k.hierarchy c = .ok members) :
    ∃ members', k'.hierarchy c' = .ok members' ∧ ∀ d ∈ members, ∃ d' ∈ members', d.Reordered d' := by
  have hfounded : k'.Founded name := h.founded ((exists_hierarchy_iff hk hfind).1 ⟨members, hm⟩)
  obtain ⟨members', hm'⟩ := (exists_hierarchy_iff (h.keyed hk) hfind').2 hfounded
  refine ⟨members', hm', fun d hd => ?_⟩
  obtain ⟨d', hd', hinherits⟩ := h.inherits hc ((mem_hierarchy_iff hk hm).1 hd)
  exact ⟨d', (mem_hierarchy_iff (h.keyed hk) hm').2 hinherits, hd'⟩

end Container.Reordered

/-! ### Stores -/

theorem Project.Reordered.symm {p p' : Project} (h : p.Reordered p') : p'.Reordered p := by
  cases h with
  | mk hcontainer => exact .mk hcontainer.symm

theorem Project.Reordered.container {p p' : Project} (h : p.Reordered p') :
    p.container.Reordered p'.container := by
  cases h with
  | mk hcontainer => exact hcontainer

namespace Store

variable {s s' : Store} {e : Edge} {p : Project} {c : Configuration}

/-- The container of the producer is keyed, if the producer is there. -/
def KeyedAt (s : Store) (e : Edge) : Prop := ∀ p, s.project? e.producer = some p → p.container.Keyed

namespace Reordered

theorem symm (h : s.Reordered s') : s'.Reordered s := fun id =>
  rel_symm (fun _ _ => Project.Reordered.symm) (h id)

/-- An edge leads to configurations whose hierarchies correspond. -/
theorem targets (h : s.Reordered s') (hk : s.KeyedAt e) (hsel : s.Selects e p c) {members : List Configuration}
    (hm : p.container.hierarchy c = .ok members) :
    ∃ p' c' members', s'.Selects e p' c' ∧ p'.container.hierarchy c' = .ok members' ∧
      ∀ d ∈ members, ∃ d' ∈ members', d.Reordered d' := by
  obtain ⟨hp, hc, hconsumable⟩ := selects_iff.1 hsel
  obtain ⟨p', hp', hproject⟩ := exists_of_rel (h e.producer) hp
  obtain ⟨c', hc', hreordered⟩ := hproject.container.find? hc
  obtain ⟨members', hm', hmembers⟩ := hproject.container.hierarchy (hk p hp) hc hc' hreordered hm
  have hsel' : s'.Selects e p' c' := selects_iff.2 ⟨hp', hc', hreordered.roles_eq ▸ hconsumable⟩
  exact ⟨p', c', members', hsel', hm', hmembers⟩

theorem not_fails (h : s.Reordered s') (hk : s.KeyedAt e) (hfails : ¬ s.Fails e) : ¬ s'.Fails e := by
  obtain ⟨p, c, members, hsel, hm⟩ := not_fails_iff.1 hfails
  obtain ⟨p', c', members', hsel', hm', _⟩ := h.targets hk hsel hm
  exact not_fails_iff.2 ⟨p', c', members', hsel', hm'⟩

/-- What the target of an edge holds does not go by order. -/
theorem holds {α : Type} [BEq α] {items : Configuration → List α} (h : s.Reordered s') (hk : s.KeyedAt e)
    (hitems : ∀ d d', d.Reordered d' → ∀ x ∈ items d, x ∈ items d') {x : α} (hx : s.Holds items e x) :
    s'.Holds items e x := by
  obtain ⟨p, c, members, hsel, hm, hx⟩ := hx
  obtain ⟨p', c', members', hsel', hm', hmembers⟩ := h.targets hk hsel hm
  refine ⟨p', c', members', hsel', hm', ?_⟩
  obtain ⟨y, hy, hsame⟩ := List.contains_iff_exists_mem_beq.1 hx
  obtain ⟨d, hd, hyd⟩ := List.mem_flatMap.1 hy
  obtain ⟨d', hd', hreordered⟩ := hmembers d hd
  have hy' : y ∈ members'.flatMap items := List.mem_flatMap.2 ⟨d', hd', hitems d d' hreordered y hyd⟩
  exact List.contains_iff_exists_mem_beq.2 ⟨y, hy', hsame⟩

end Reordered

end Store

/-! ### Builds -/

namespace Build

variable {b b' : Build} {e : Edge}

theorem Coherent.keyedAt (h : b.Coherent) (he : e.Into b) : b.store.KeyedAt e := by
  intro p hp
  obtain ⟨q, hq, hsound⟩ := h e.path e.producer he
  rw [hp] at hq
  cases hq
  exact hsound.keyed

namespace Reordered

theorem symm (h : b.Reordered b') : b'.Reordered b where
  tree_eq := h.tree_eq.symm
  store := h.store.symm

theorem into (h : b.Reordered b') (he : e.Into b) : e.Into b' := by
  unfold Edge.Into
  rw [h.tree_eq]
  exact he

theorem coherent (h : b.Reordered b') (hb : b.Coherent) : b'.Coherent := by
  intro path id hid
  rw [h.tree_eq] at hid
  obtain ⟨p, hp, hsound⟩ := hb path id hid
  obtain ⟨p', hp', hproject⟩ := exists_of_rel (h.store id) hp
  refine ⟨p', hp', ?_⟩
  cases hproject with
  | mk hcontainer =>
      exact ⟨hsound.path_eq, hcontainer.owner_eq.trans hsound.owner_eq, hcontainer.keyed hsound.keyed⟩

theorem mem_edges (h : b.Reordered b') (he : e ∈ b.edges) : e ∈ b'.edges := by
  obtain ⟨path, id, p, name, c, hid, hp, hc, hdeclared⟩ := mem_edges_iff.1 he
  obtain ⟨p', hp', hproject⟩ := exists_of_rel (h.store id) hp
  obtain ⟨c', hc', hreordered⟩ := hproject.container.find? hc
  rw [← h.tree_eq] at hid
  exact mem_edges_iff.2 ⟨path, id, p', name, c', hid, hp', hc', hreordered.mem_dependencies hdeclared⟩

end Reordered

end Build

/-! ### All lists turned round -/

def Configuration.turned (c : Configuration) : Configuration :=
  { c with dependencies := c.dependencies.reverse, extendsFrom := c.extendsFrom.reverse }

def Container.turned (k : Container) : Container := { k with entries := k.entries.map fun _ c => c.turned }

def Project.turned (p : Project) : Project := { p with container := p.container.turned }

def Store.turned (s : Store) : Store := { s with projects := s.projects.map (Option.map Project.turned) }

/-- The build with the dependencies and the parents of all configurations in reverse order. -/
def Build.turned (b : Build) : Build := { b with store := b.store.turned }

theorem Configuration.reordered_turned (c : Configuration) : c.Reordered c.turned :=
  .mk c.dependencies.reverse_perm.symm c.extendsFrom.reverse_perm.symm

theorem Container.reordered_turned (k : Container) : k.Reordered k.turned where
  owner_eq := rfl
  ownerName_eq := rfl
  entries name := by
    have hfind : k.turned.find? name = (k.find? name).map Configuration.turned := by
      simp [Container.find?, turned]
    rw [hfind]
    cases k.find? name with
    | none => exact .none
    | some c => exact .some c.reordered_turned

theorem Store.reordered_turned (s : Store) : s.Reordered s.turned := by
  intro id
  have hproject : s.turned.project? id = (s.project? id).map Project.turned := by
    simp only [project?, turned, List.getElem?_map]
    cases s.projects[id.index]? with
    | none => rfl
    | some p => cases p <;> rfl
  rw [hproject]
  cases s.project? id with
  | none => exact .none
  | some p => exact .some (.mk p.container.reordered_turned)

theorem Build.reordered_turned (b : Build) : b.Reordered b.turned := ⟨rfl, b.store.reordered_turned⟩

end ProjectGraph
