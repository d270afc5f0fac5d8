import ProjectGraph.Proofs.Build.Runs
import ProjectGraph.Proofs.Selection

/-!
Edges into a build. An edge leads into a build if its path is one of the tree and its producer is the project
there. In a build that declares no other edges, nothing that lies below an edge into it leads out of it.

As a coherent build has one project at each path, edges into it that are the same have the same destination,
and owner and name of a registered configuration tell which project and which configuration it is.

`shop` is a small self-contained build with a cycle, at which the general statements are looked at.
-/

namespace ProjectGraph

/-- The edge leads to the project that the tree has at its path. -/
def Edge.Into (e : Edge) (b : Build) : Prop := b.tree.projects[e.path]? = some e.producer

instance (e : Edge) (b : Build) : Decidable (e.Into b) :=
  inferInstanceAs (Decidable (b.tree.projects[e.path]? = some e.producer))

namespace Build

/-- The edges that the projects of the tree declare. -/
def edges (b : Build) : List Edge :=
  b.tree.projects.toList.flatMap fun entry =>
    (b.store.project? entry.2).toList.flatMap fun p =>
      p.container.configurations.flatMap fun c => c.dependencies.filterMap Dependency.edge?

/-- All declared edges lead into the tree itself. -/
def SelfContained (b : Build) : Prop := ∀ e ∈ b.edges, e.Into b

instance (b : Build) : Decidable b.SelfContained :=
  inferInstanceAs (Decidable (∀ e ∈ b.edges, e.Into b))

variable {b : Build} {e x : Edge}

theorem mem_edges {path : ProjectPath} {id : ProjectId} {p : Project} {c : Configuration}
    (hid : b.tree.projects[path]? = some id) (hp : b.store.project? id = some p)
    (hc : c ∈ p.container.configurations) (hx : .project x ∈ c.dependencies) : x ∈ b.edges := by
  refine List.mem_flatMap.2 ⟨(path, id), Std.ExtTreeMap.mem_toList_iff_getElem?_eq_some.2 hid, ?_⟩
  refine List.mem_flatMap.2 ⟨p, by simp [hp], ?_⟩
  refine List.mem_flatMap.2 ⟨c, hc, ?_⟩
  exact Dependency.mem_filterMap_edge?.2 hx

theorem mem_edges_iff : x ∈ b.edges ↔ ∃ (path : ProjectPath) (id : ProjectId) (p : Project) (name : String)
    (c : Configuration), b.tree.projects[path]? = some id ∧ b.store.project? id = some p ∧
      p.container.find? name = some c ∧ .project x ∈ c.dependencies := by
  constructor
  · intro h
    obtain ⟨⟨path, id⟩, hid, h⟩ := List.mem_flatMap.1 h
    obtain ⟨p, hp, h⟩ := List.mem_flatMap.1 h
    obtain ⟨c, hc, h⟩ := List.mem_flatMap.1 h
    obtain ⟨name, hname⟩ := Container.mem_configurations_iff.1 hc
    have hlive : b.store.project? id = some p := by simpa using hp
    exact ⟨path, id, p, name, c, Std.ExtTreeMap.mem_toList_iff_getElem?_eq_some.1 hid, hlive, hname,
      Dependency.mem_filterMap_edge?.1 h⟩
  · rintro ⟨path, id, p, name, c, hid, hp, hc, hx⟩
    exact mem_edges hid hp (Container.mem_configurations_of_find? hc) hx

theorem producer_eq_of_path {e' : Edge} (he : e.Into b) (he' : e'.Into b) (h : e.path = e'.path) :
    e.producer = e'.producer := by
  unfold Edge.Into at he he'
  rw [h, he'] at he
  exact (Option.some.inj he).symm

/-- Edges into one build that are the same lead to the same place. -/
theorem destination_eq_of_beq {e' : Edge} (he : e.Into b) (he' : e'.Into b) (h : e == e') :
    e.destination = e'.destination := by
  obtain ⟨hpath, htarget, _⟩ := Prod.mk.inj (Edge.beq_iff.1 h) |>.imp_right Prod.mk.inj
  simp only [Edge.destination, Edge.target, producer_eq_of_path he he' hpath, htarget]

/-! ### Registered configurations -/

/-- The tree has a live project at the path, and this one has the configuration by the name. -/
structure Registers (b : Build) (path : ProjectPath) (name : String) (id : ProjectId) (p : Project)
    (c : Configuration) : Prop where
  placed : b.tree.projects[path]? = some id
  live : b.store.project? id = some p
  found : p.container.find? name = some c

theorem registers_of_selects (he : e.Into b) {p : Project} {c : Configuration} (hsel : b.store.Selects e p c) :
    b.Registers e.path e.target e.producer p c := by
  obtain ⟨hp, hc, _⟩ := Store.selects_iff.1 hsel
  exact ⟨he, hp, hc⟩

section Registers

variable {path path' : ProjectPath} {name name' : String} {id id' : ProjectId} {p p' : Project}
  {c c' : Configuration}

/-- A registered configuration belongs to the path and goes by the name. -/
theorem Coherent.key_of_registers (h : b.Coherent) (hr : b.Registers path name id p c) :
    c.owner = path ∧ c.name = name := by
  obtain ⟨q, hq, hsound⟩ := h path id hr.placed
  rw [hr.live] at hq
  cases hq
  exact ⟨(hsound.keyed.owner_eq hr.found).trans hsound.owner_eq, hsound.keyed.name_eq hr.found⟩

/-- Owner and name tell a registered configuration from all others. -/
theorem Coherent.registers_unique (h : b.Coherent) (hr : b.Registers path name id p c)
    (hr' : b.Registers path' name' id' p' c') (howner : c.owner = c'.owner) (hname : c.name = c'.name) :
    id = id' ∧ c = c' := by
  obtain ⟨rfl, rfl⟩ := h.key_of_registers hr
  obtain ⟨rfl, rfl⟩ := h.key_of_registers hr'
  have hid : id = id' := by
    have hplaced := hr.placed
    rw [howner, hr'.placed] at hplaced
    exact (Option.some.inj hplaced).symm
  subst hid
  have hp : p = p' := by
    have hlive := hr.live
    rw [hr'.live] at hlive
    exact (Option.some.inj hlive).symm
  subst hp
  have hfound := hr.found
  rw [hname, hr'.found] at hfound
  exact ⟨rfl, (Option.some.inj hfound).symm⟩

/-- The edges of a registered configuration, declared and inherited ones, are declared in the build. -/
theorem Registers.mem_edges (hr : b.Registers path name id p c) {ds : List Dependency}
    (hds : p.container.allDependencies c = .ok ds) (hx : .project x ∈ ds) : x ∈ b.edges := by
  have hc : c ∈ p.container.configurations := Container.mem_configurations_of_find? hr.found
  obtain ⟨c', hc', hx'⟩ := List.mem_flatMap.1 (Container.mem_of_allDependencies hc hds hx)
  exact Build.mem_edges hr.placed hr.live hc' hx'

end Registers

/-- An edge that lies below an edge into the build is declared there. -/
theorem mem_edges_of_mem_below (he : e.Into b) (hx : .project x ∈ b.store.below (.project e)) : x ∈ b.edges := by
  obtain ⟨p, c, ds, hsel, hds, hd⟩ := Store.mem_below.1 hx
  exact (registers_of_selects he hsel).mem_edges hds hd

/-- What lies below an edge into a self-contained build leads into the build. -/
theorem SelfContained.into_of_mem_below (h : b.SelfContained) (he : e.Into b)
    (hx : .project x ∈ b.store.below (.project e)) : x.Into b :=
  h x (mem_edges_of_mem_below he hx)

/-! ### A build whose projects need each other -/

/-- An edge to what the `number`-th project offers by default, which stands right below the root. -/
def offerOf (number : Nat) (name : String) : Edge := ⟨⟨number⟩, ⟨[name]⟩, true, .targeting none⟩

/-- What a project of the shop declares: a jar, built by its own task, and what else it needs. -/
def jarOf (name : String) (needs : List Dependency) : Declaration :=
  { Declaration.named defaultConfiguration with
    dependencies := needs
    artifacts := [⟨name, Artifact.defaultExtension, none, .of (name ++ ".jar"), [⟨⟨[name]⟩, "jar"⟩]⟩] }

def moduleOfLib : ModuleDependency := ⟨"g", "m", some "1", .targeting none⟩

/-- A library and an application that need each other. The library needs a module as well. -/
def shop : Build :=
  let b := ((start .empty "shop" ⟨0⟩).addProject ⟨["lib"]⟩).1
  let b := (b.addProject ⟨["app"]⟩).1
  let b := b.declare ⟨1⟩ (jarOf "lib" [.module moduleOfLib, .project (offerOf 2 "app")])
  b.declare ⟨2⟩ (jarOf "app" [.project (offerOf 1 "lib")])

theorem shop_reachable : shop.Reachable :=
  ((((Reachable.start .empty "shop" ⟨0⟩).addProject _).addProject _).declare _ _).declare _ _

theorem shop_selfContained : shop.SelfContained := by decide +kernel

/-- A result of which one part is known is there. -/
theorem exists_eq_ok {ε α β : Type} {r : Except ε α} {part : α → β} {b : β}
    (h : r.toOption.map part = some b) : ∃ a, r = .ok a ∧ part a = b := by
  cases r with
  | error x => cases h
  | ok a => exact ⟨a, rfl, Option.some.inj h⟩

end Build

end ProjectGraph
