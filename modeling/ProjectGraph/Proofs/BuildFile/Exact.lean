import ProjectGraph.Proofs.BuildFile.Loaded

/-!
What loading makes of a build file, and when it succeeds. The first pass over the entries makes the projects: those that
the file covers, which are the ones it names and all above them. It cannot fail. The second pass registers the
configurations one by one. It fails at the first one with a dependency that makes no sense or with a name that is taken
in its project, and changes nothing but the containers.

Both passes are described by what is known after the entries gone through so far: `Outlined` for the first one and
`Furnished` for the second.
-/

namespace ProjectGraph

/-! ### What a file says -/

namespace ProjectSpec

/-- The projects that entries make: those they name, and all above them. The root is always there. -/
def Covers (specs : List ProjectSpec) (path : ProjectPath) : Prop :=
  path = .root ∨ ∃ spec ∈ specs, path.segments <+: spec.path.segments

instance (specs : List ProjectSpec) (path : ProjectPath) : Decidable (Covers specs path) :=
  inferInstanceAs (Decidable (_ ∨ _))

/-- What the last of the entries for a path says that says anything. -/
def lastGiven (part : ProjectSpec → Option String) (specs : List ProjectSpec) (path : ProjectPath) : Option String :=
  ((specs.filter fun spec => spec.path = path).filterMap part).getLast?

/-- The project at a path before any configuration is registered. -/
def outlined (rootName : String) (reporter : ReporterId) (specs : List ProjectSpec) (path : ProjectPath) : Project :=
  let new := Project.new path (path.name?.getD rootName) reporter
  { new with
    group := (lastGiven group specs path).getD new.group
    version := (lastGiven version specs path).getD new.version }

end ProjectSpec

namespace BuildFile

def Covers (f : BuildFile) (path : ProjectPath) : Prop := ProjectSpec.Covers f.projects path

/-- All configurations that the entries declare, each with the path of its project. -/
def declared (f : BuildFile) : List (ProjectPath × ConfigurationSpec) :=
  f.projects.flatMap fun spec => spec.configurations.map fun c => (spec.path, c)

/-- A dependency makes sense: on a project that the file covers, or on a module that can be read. -/
def Accepts (f : BuildFile) : DependencySpec → Prop
  | .project path _ _ => f.Covers path
  | .module coordinates _ => (ModuleDependency.parse? coordinates).isSome

instance (f : BuildFile) : DecidablePred f.Accepts
  | .project path _ _ => inferInstanceAs (Decidable (ProjectSpec.Covers f.projects path))
  | .module coordinates _ => inferInstanceAs (Decidable ((ModuleDependency.parse? coordinates).isSome = true))

/-- Where configurations must not meet: in one project under one name. -/
def place (e : ProjectPath × ConfigurationSpec) : ProjectPath × String := (e.1, e.2.name)

/-- All dependencies make sense, and no two configurations of a project have one name. -/
structure Loadable (f : BuildFile) : Prop where
  accepted : ∀ e ∈ f.declared, ∀ d ∈ e.2.dependencies, f.Accepts d
  apart : (f.declared.map place).Nodup

instance (f : BuildFile) : Decidable f.Loadable :=
  decidable_of_iff ((∀ e ∈ f.declared, ∀ d ∈ e.2.dependencies, f.Accepts d) ∧ (f.declared.map place).Nodup)
    ⟨fun h => ⟨h.1, h.2⟩, fun h => ⟨h.accepted, h.apart⟩⟩

end BuildFile

/-! ### Making the projects -/

namespace ProjectSpec

variable {specs : List ProjectSpec} {path : ProjectPath} {part : ProjectSpec → Option String}

theorem covers_append (specs : List ProjectSpec) (spec : ProjectSpec) (path : ProjectPath) :
    Covers (specs ++ [spec]) path ↔ Covers specs path ∨ path ≠ .root ∧ path.segments <+: spec.path.segments := by
  by_cases hroot : path = .root
  · simp [Covers, hroot]
  · simp [Covers, hroot, or_and_right, exists_or]

theorem lastGiven_append (part : ProjectSpec → Option String) (specs : List ProjectSpec) (spec : ProjectSpec)
    (path : ProjectPath) : lastGiven part (specs ++ [spec]) path =
      if spec.path = path then (part spec).or (lastGiven part specs path) else lastGiven part specs path := by
  unfold lastGiven
  rw [List.filter_append, List.filterMap_append, List.getLast?_append]
  split
  · rename_i heq
    cases hpart : part spec <;> simp [heq, hpart]
  · rename_i hne
    simp [hne]

/-- Nothing is said about a path that is not covered. -/
theorem lastGiven_of_not_covers (h : ¬ Covers specs path) : lastGiven part specs path = none := by
  have hnone : specs.filter (fun spec => spec.path = path) = [] := by
    refine List.filter_eq_nil_iff.2 fun spec hspec heq => h (Or.inr ⟨spec, hspec, ?_⟩)
    rw [of_decide_eq_true heq]
  rw [lastGiven, hnone]
  rfl

variable {rootName name : String} {reporter : ReporterId}

theorem outlined_of_not_covers (h : ¬ Covers specs path) (hname : path.name? = some name) :
    outlined rootName reporter specs path = .new path name reporter := by
  simp [outlined, lastGiven_of_not_covers h, hname]

theorem outlined_append_self (specs : List ProjectSpec) (spec : ProjectSpec) :
    outlined rootName reporter (specs ++ [spec]) spec.path =
      { outlined rootName reporter specs spec.path with
        group := spec.group.getD (outlined rootName reporter specs spec.path).group
        version := spec.version.getD (outlined rootName reporter specs spec.path).version } := by
  simp [outlined, lastGiven_append, Option.getD_or]

theorem outlined_append_of_ne {spec : ProjectSpec} (h : spec.path ≠ path) :
    outlined rootName reporter (specs ++ [spec]) path = outlined rootName reporter specs path := by
  simp [outlined, lastGiven_append, h]

end ProjectSpec

namespace Build

open ProjectSpec

variable {b b' : Build} {rootName : String} {reporter : ReporterId} {done : List ProjectSpec}

/-- The first pass has gone through some of the entries. -/
structure Outlined (rootName : String) (reporter : ReporterId) (done : List ProjectSpec) (b : Build) : Prop where
  reachable : b.Reachable
  reporter_eq : b.tree.reporter = reporter
  mem_iff : ∀ path, path ∈ b.tree.projects ↔ ProjectSpec.Covers done path
  project : ∀ {path : ProjectPath} {id : ProjectId}, b.tree.projects[path]? = some id →
    b.store.project? id = some (outlined rootName reporter done path)

theorem outlined_start (store : Store) (rootName : String) (reporter : ReporterId) :
    (start store rootName reporter).Outlined rootName reporter [] where
  reachable := .start store rootName reporter
  reporter_eq := rfl
  mem_iff path := by
    simp [mem_start_iff, ProjectSpec.Covers]
  project {path id} hid := by
    obtain ⟨rfl, hp⟩ := root_of_start hid
    exact hp

/-- Adding the project of the next entry makes those above it, and leaves the others as they are. -/
theorem Outlined.project_addProject (h : b.Outlined rootName reporter done) {added path : ProjectPath} {id : ProjectId}
    (hid : (b.addProject added).1.tree.projects[path]? = some id) :
    (b.addProject added).1.store.project? id = some (outlined rootName reporter done path) := by
  have hgrows := grows_addProject b added
  cases hbefore : b.tree.projects[path]? with
  | some id' =>
      have hkept := hgrows.kept hbefore
      rw [hid] at hkept
      cases hkept
      exact hgrows.alive (h.project hbefore)
  | none =>
      obtain ⟨name, hname, hp⟩ := hgrows.fresh hbefore hid
      have hfree : ¬ ProjectSpec.Covers done path := by
        rw [← h.mem_iff, mem_tree_iff, hbefore]
        rintro ⟨id, hid⟩
        cases hid
      rw [hp, h.reporter_eq, outlined_of_not_covers hfree hname]

theorem Outlined.outline (h : b.Outlined rootName reporter done) {spec : ProjectSpec}
    (hok : b.outline spec = .ok b') : b'.Outlined rootName reporter (done ++ [spec]) := by
  have hself := h.reachable.rooted.getElem?_addProject spec.path
  rw [h.reachable.rooted.outline_eq] at hok
  cases hok
  refine ⟨?_, ?_, ?_, ?_⟩
  · exact (h.reachable.addProject spec.path).change _ _ fun _ _ => ⟨rfl, rfl, .refl _⟩
  · exact (grows_addProject b spec.path).reporter_eq.trans h.reporter_eq
  · intro path
    rw [covers_append, ← h.mem_iff]
    exact mem_addProject_iff
  · intro path id hid
    have hp := h.project_addProject hid
    simp only [Store.project?_modify]
    split
    · rename_i heq
      subst heq
      cases (h.reachable.addProject spec.path).coherent.path_unique hid hself
      rw [hp, outlined_append_self]
      rfl
    · rename_i hne
      rw [hp, outlined_append_of_ne]
      rintro rfl
      rw [hself] at hid
      exact hne (Option.some.inj hid)

/-- The first pass always succeeds. -/
theorem exists_outlined (specs : List ProjectSpec) (store : Store) (rootName : String) (reporter : ReporterId) :
    ∃ b, specs.foldlM Build.outline (.start store rootName reporter) = .ok b ∧ b.Outlined rootName reporter specs := by
  refine exists_foldlM (Outlined rootName reporter) [] ?_ (outlined_start store rootName reporter)
  intro done b spec _ h
  have houtline := h.reachable.rooted.outline_eq spec
  exact ⟨_, houtline, h.outline houtline⟩

end Build

/-- A dependency makes sense in a build with the projects that the file covers exactly if it does in the file. -/
theorem DependencySpec.exists_describes_iff {f : BuildFile} {b : Build}
    (hb : ∀ path, path ∈ b.tree.projects ↔ f.Covers path) {spec : DependencySpec} :
    (∃ d, spec.Describes b d) ↔ f.Accepts spec := by
  cases spec with
  | project path buildsProducer request =>
      rw [BuildFile.Accepts, ← hb, Build.mem_tree_iff]
      constructor
      · rintro ⟨_, e, _, hinto, rfl, _⟩
        exact ⟨e.producer, hinto⟩
      · rintro ⟨id, hid⟩
        exact ⟨_, .requesting id path buildsProducer request, rfl, hid, rfl, rfl, rfl⟩
  | module coordinates request =>
      rw [BuildFile.Accepts, Option.isSome_iff_exists]
      constructor
      · rintro ⟨_, m, hm, _⟩
        exact ⟨m, hm⟩
      · rintro ⟨m, hm⟩
        exact ⟨_, m, hm, rfl⟩

theorem ConfigurationSpec.exists_describes_iff {f : BuildFile} {b : Build}
    (hb : ∀ path, path ∈ b.tree.projects ↔ f.Covers path) {spec : ConfigurationSpec} :
    (∃ d, spec.Describes b d) ↔ ∀ d ∈ spec.dependencies, f.Accepts d := by
  simp only [← declaration_eq_ok, declaration, except_bind_eq_ok]
  constructor
  · rintro ⟨_, dependencies, hdependencies, _⟩ d hd
    obtain ⟨dependency, hdependency⟩ := exists_mapM_eq_ok_iff.1 ⟨dependencies, hdependencies⟩ d hd
    exact (DependencySpec.exists_describes_iff hb).1 ⟨dependency, DependencySpec.resolve_eq_ok.1 hdependency⟩
  · intro h
    obtain ⟨dependencies, hdependencies⟩ := exists_mapM_eq_ok_iff.2 fun d hd => by
      obtain ⟨dependency, hdependency⟩ := (DependencySpec.exists_describes_iff hb).2 (h d hd)
      exact ⟨dependency, DependencySpec.resolve_eq_ok.2 hdependency⟩
    exact ⟨_, dependencies, hdependencies, rfl⟩

/-! ### Registering the configurations -/

namespace Build

variable {b₀ b b' : Build} {done : List (ProjectPath × ConfigurationSpec)} {path : ProjectPath}
  {spec : ConfigurationSpec} {k : Container} {d : Declaration}

/-- The container holds the configurations that entries declare for a path, and no others. -/
structure Holds (b : Build) (done : List (ProjectPath × ConfigurationSpec)) (path : ProjectPath) (k : Container) :
    Prop where
  owner_eq : k.owner = path
  every : ∀ spec, (path, spec) ∈ done →
    ∃ c, k.find? spec.name = some c ∧ c.owner = path ∧ spec.Describes b c.toDeclaration
  only : ∀ {name : String} {c : Configuration}, k.find? name = some c → ∃ spec, (path, spec) ∈ done ∧ spec.name = name

theorem holds_new (b : Build) (path : ProjectPath) (ownerName : String) : Holds b [] path (.new path ownerName) where
  owner_eq := rfl
  every spec h := nomatch h
  only h := by simp [Container.find?, Container.new] at h

theorem Holds.of_tree_eq (h : Holds b₀ done path k) (htree : b.tree = b₀.tree) : Holds b done path k where
  owner_eq := h.owner_eq
  every spec hspec := by
    obtain ⟨c, hc, howner, hdescribes⟩ := h.every spec hspec
    exact ⟨c, hc, howner, hdescribes.of_tree_eq htree⟩
  only := h.only

/-- What is declared elsewhere is of no concern. -/
theorem Holds.elsewhere (h : Holds b done path k) {other : ProjectPath} (hne : other ≠ path)
    (spec : ConfigurationSpec) : Holds b (done ++ [(other, spec)]) path k where
  owner_eq := h.owner_eq
  every spec' hspec' := by
    rcases List.mem_append.1 hspec' with hspec' | hspec'
    · exact h.every spec' hspec'
    · cases List.mem_singleton.1 hspec'
      exact absurd rfl hne
  only hc := by
    obtain ⟨spec', hspec', hname⟩ := h.only hc
    exact ⟨spec', List.mem_append_left _ hspec', hname⟩

theorem Holds.put (h : Holds b done path k) (hd : spec.Describes b d) (hfree : k.find? d.name = none) :
    Holds b (done ++ [(path, spec)]) path (k.put d.name (k.own d)) where
  owner_eq := h.owner_eq
  every spec' hspec' := by
    rw [Container.find?_put]
    rcases List.mem_append.1 hspec' with hspec' | hspec'
    · obtain ⟨c, hc, hrest⟩ := h.every spec' hspec'
      rw [if_neg]
      · exact ⟨c, hc, hrest⟩
      · intro heq
        rw [heq, hc] at hfree
        cases hfree
    · cases List.mem_singleton.1 hspec'
      exact ⟨_, if_pos hd.name_eq, h.owner_eq, hd⟩
  only {name c} hc := by
    rw [Container.find?_put] at hc
    split at hc
    · rename_i heq
      exact ⟨spec, by simp, hd.name_eq.symm.trans heq⟩
    · obtain ⟨spec', hspec', hname⟩ := h.only hc
      exact ⟨spec', List.mem_append_left _ hspec', hname⟩

/-- A name is taken in the project of a path if something is declared there under it. -/
theorem Holds.find?_eq_none_iff (h : Holds b done path k) {name : String} :
    k.find? name = none ↔ (path, name) ∉ done.map BuildFile.place := by
  rw [List.mem_map]
  constructor
  · rintro hnone ⟨⟨_, spec⟩, hspec, heq⟩
    cases heq
    obtain ⟨c, hc, _⟩ := h.every spec hspec
    rw [hnone] at hc
    cases hc
  · intro hfree
    by_contra hsome
    obtain ⟨c, hc⟩ := Option.ne_none_iff_exists'.1 hsome
    obtain ⟨spec, hspec, rfl⟩ := h.only hc
    exact hfree ⟨_, hspec, rfl⟩

/-- The second pass has gone through some of the configurations, starting at `b₀`. -/
structure Furnished (b₀ : Build) (done : List (ProjectPath × ConfigurationSpec)) (b : Build) : Prop where
  tree_eq : b.tree = b₀.tree
  accepted : ∀ e ∈ done, ∃ d, e.2.Describes b₀ d
  apart : (done.map BuildFile.place).Nodup
  project : ∀ {path : ProjectPath} {id : ProjectId} {p : Project}, b₀.tree.projects[path]? = some id →
    b₀.store.project? id = some p →
    ∃ k, b.store.project? id = some { p with container := k } ∧ Holds b₀ done path k

/-- Registering in a project of the tree succeeds if the name is free there. -/
theorem register_eq_ok {id : ProjectId} {p : Project} (hid : b.tree.projects[path]? = some id)
    (hp : b.store.project? id = some p) : b.register path d = .ok b' ↔
      p.container.find? d.name = none ∧ { b with store := b.store.modify id fun q =>
        { q with container := p.container.put d.name (p.container.own d) } } = b' := by
  have hfind : b.find path = .ok id := by rw [find, hid]
  simp only [register, hfind, hp, bind, Except.bind, Container.register, Container.contains_eq]
  cases p.container.find? d.name with
  | some c => simp
  | none => simp [pure, Except.pure]

theorem Furnished.furnishWith_eq_ok (h : Furnished b₀ done b) {id : ProjectId} {p : Project}
    (hid : b₀.tree.projects[path]? = some id) (hp : b.store.project? id = some p) : b.furnishWith path spec = .ok b' ↔
      ∃ d, spec.Describes b₀ d ∧ p.container.find? d.name = none ∧ { b with store := b.store.modify id fun q =>
        { q with container := p.container.put d.name (p.container.own d) } } = b' := by
  rw [← h.tree_eq] at hid
  rw [furnishWith, except_bind_eq_ok]
  refine exists_congr fun d => and_congr ?_ (register_eq_ok hid hp)
  rw [ConfigurationSpec.declaration_eq_ok]
  exact ⟨.of_tree_eq h.tree_eq.symm, .of_tree_eq h.tree_eq⟩

theorem Furnished.furnishWith (h : Furnished b₀ done b) (hcoherent : b₀.Coherent) (hpath : path ∈ b₀.tree.projects)
    (hok : b.furnishWith path spec = .ok b') : Furnished b₀ (done ++ [(path, spec)]) b' := by
  obtain ⟨id, hid⟩ := mem_tree_iff.1 hpath
  obtain ⟨p, hp, _⟩ := hcoherent path id hid
  obtain ⟨k, hk, hholds⟩ := h.project hid hp
  obtain ⟨d, hd, hfree, rfl⟩ := (h.furnishWith_eq_ok hid hk).1 hok
  have hplace : (path, spec.name) ∉ done.map BuildFile.place := by
    rwa [← hholds.find?_eq_none_iff, ← hd.name_eq]
  refine ⟨h.tree_eq, ?_, ?_, ?_⟩
  · rw [List.forall_mem_append, List.forall_mem_singleton]
    exact ⟨h.accepted, d, hd⟩
  · rw [List.map_append, List.map_singleton, List.nodup_append]
    refine ⟨h.apart, List.pairwise_singleton _ _, fun place hmem other hother heq => hplace ?_⟩
    rwa [heq, List.mem_singleton.1 hother] at hmem
  · intro other id' q hid' hq
    simp only [Store.project?_modify]
    split
    · rename_i heq
      subst heq
      cases hcoherent.path_unique hid' hid
      rw [hp] at hq
      cases hq
      exact ⟨_, by rw [hk]; rfl, hholds.put hd hfree⟩
    · rename_i hne
      obtain ⟨k', hk', hholds'⟩ := h.project hid' hq
      refine ⟨k', hk', hholds'.elsewhere ?_ spec⟩
      rintro rfl
      rw [hid] at hid'
      exact hne (Option.some.inj hid')

/-- A configuration that makes sense can be registered if its name is free. -/
theorem Furnished.exists_furnishWith (h : Furnished b₀ done b) (hcoherent : b₀.Coherent)
    (hpath : path ∈ b₀.tree.projects) (hd : spec.Describes b₀ d)
    (hfree : (path, spec.name) ∉ done.map BuildFile.place) : ∃ b', b.furnishWith path spec = .ok b' := by
  obtain ⟨id, hid⟩ := mem_tree_iff.1 hpath
  obtain ⟨p, hp, _⟩ := hcoherent path id hid
  obtain ⟨k, hk, hholds⟩ := h.project hid hp
  refine ⟨_, (h.furnishWith_eq_ok hid hk).2 ⟨d, hd, ?_, rfl⟩⟩
  rwa [hd.name_eq, hholds.find?_eq_none_iff]

theorem Outlined.furnished {rootName : String} {reporter : ReporterId} {specs : List ProjectSpec}
    (h : b.Outlined rootName reporter specs) : Furnished b [] b where
  tree_eq := rfl
  accepted _ he := nomatch he
  apart := .nil
  project {path id p} hid hp := by
    rw [h.project hid] at hp
    cases hp
    exact ⟨_, h.project hid, holds_new b path _⟩

end Build

namespace BuildFile

variable {f : BuildFile} {b₀ b b' : Build} {store : Store} {reporter : ReporterId}

/-- The second pass takes the configurations of all entries one by one. -/
theorem foldlM_furnish (f : BuildFile) (b : Build) :
    f.projects.foldlM Build.furnish b = f.declared.foldlM (fun b e => b.furnishWith e.1 e.2) b := by
  rw [declared, foldlM_flatMap]
  simp only [List.foldlM_map]
  rfl

theorem covers_of_mem_declared {e : ProjectPath × ConfigurationSpec} (he : e ∈ f.declared) : f.Covers e.1 := by
  obtain ⟨spec, hspec, he⟩ := List.mem_flatMap.1 he
  obtain ⟨c, _, rfl⟩ := List.mem_map.1 he
  exact Or.inr ⟨spec, hspec, List.prefix_refl _⟩

/-- The second pass fails on what cannot be loaded. -/
theorem furnished_of_ok (h : b₀.Outlined f.rootProject reporter f.projects)
    (hok : f.projects.foldlM Build.furnish b₀ = .ok b) : Build.Furnished b₀ f.declared b := by
  rw [foldlM_furnish] at hok
  refine foldlM_follows (Build.Furnished b₀) [] ?_ h.furnished hok
  intro done b e b' he hb hstep
  exact hb.furnishWith h.reachable.coherent ((h.mem_iff e.1).2 (covers_of_mem_declared he)) hstep

theorem Loadable.exists_furnish (hf : f.Loadable) (h : b₀.Outlined f.rootProject reporter f.projects) :
    ∃ b, f.projects.foldlM Build.furnish b₀ = .ok b ∧ Build.Furnished b₀ f.declared b := by
  rw [foldlM_furnish]
  refine exists_foldlM (Build.Furnished b₀) [] ?_ h.furnished
  intro done b e hbefore hb
  have he : e ∈ f.declared := hbefore.subset (List.mem_append_right done List.mem_cons_self)
  have hmem : e.1 ∈ b₀.tree.projects := (h.mem_iff e.1).2 (covers_of_mem_declared he)
  obtain ⟨d, hd⟩ := (ConfigurationSpec.exists_describes_iff h.mem_iff).2 (hf.accepted e he)
  have hfree : place e ∉ done.map place := by
    intro htaken
    -- The entry comes after those that are done, so its place cannot be among theirs.
    have hapart : ((done ++ [e]).map place).Nodup := hf.apart.sublist (hbefore.sublist.map place)
    rw [List.map_append, List.nodup_append] at hapart
    exact hapart.2.2 _ htaken (place e) List.mem_cons_self rfl
  obtain ⟨b', hstep⟩ := hb.exists_furnishWith h.reachable.coherent hmem hd hfree
  exact ⟨b', hstep, hb.furnishWith h.reachable.coherent hmem hstep⟩

theorem loadable_of_furnished (h : b₀.Outlined f.rootProject reporter f.projects)
    (hb : Build.Furnished b₀ f.declared b) : f.Loadable where
  accepted e he := (ConfigurationSpec.exists_describes_iff h.mem_iff).1 (hb.accepted e he)
  apart := hb.apart

/-- A project is what the entries for its path say. -/
structure Fills (f : BuildFile) (b : Build) (path : ProjectPath) (p : Project) : Prop where
  path_eq : p.path = path
  name_eq : p.name = path.name?.getD f.rootProject
  group_eq : p.group = (ProjectSpec.lastGiven ProjectSpec.group f.projects path).getD ""
  version_eq : p.version = (ProjectSpec.lastGiven ProjectSpec.version f.projects path).getD "unspecified"
  holds : Build.Holds b f.declared path p.container

/--
Loading succeeds exactly on what is `Loadable`. It gives a tree with the projects that the file covers and no others,
each of which is what the entries for its path say.
-/
theorem load_exact (f : BuildFile) (store : Store) (reporter : ReporterId) :
    ((∃ b, f.load store reporter = .ok b) ↔ f.Loadable) ∧
    ∀ b, f.load store reporter = .ok b →
      (∀ path, path ∈ b.tree.projects ↔ f.Covers path) ∧
      ∀ (path : ProjectPath) (id : ProjectId), b.tree.projects[path]? = some id →
        ∃ p, b.store.project? id = some p ∧ f.Fills b path p := by
  obtain ⟨b₀, houtlined, h⟩ := Build.exists_outlined f.projects store f.rootProject reporter
  have hload : f.load store reporter = f.projects.foldlM Build.furnish b₀ := by
    rw [load, houtlined]
    rfl
  rw [hload]
  refine ⟨⟨?_, ?_⟩, ?_⟩
  · rintro ⟨b, hb⟩
    exact loadable_of_furnished h (furnished_of_ok h hb)
  · intro hf
    obtain ⟨b, hb, _⟩ := hf.exists_furnish h
    exact ⟨b, hb⟩
  · intro b hok
    have hb := furnished_of_ok h hok
    rw [hb.tree_eq]
    refine ⟨h.mem_iff, fun path id hid => ?_⟩
    obtain ⟨k, hk, hholds⟩ := hb.project hid (h.project hid)
    exact ⟨_, hk, rfl, rfl, rfl, rfl, hholds.of_tree_eq hb.tree_eq⟩

/-- A configuration of which nothing is written but its name and what it depends on. -/
def bare (name : String) (dependencies : List DependencySpec) : ConfigurationSpec :=
  ⟨name, true, true, none, [], dependencies, [], []⟩

/-- What `:libs:core` offers. The root comes later in the file. -/
def coreDefault : ConfigurationSpec :=
  bare "default" [.project .root true (.targeting (some "api")), .module "g:m:" (.targeting none)]

/-- A library that two entries speak of, the second one after an entry for the root. Nothing is written of `:libs`. -/
def stock : BuildFile where
  rootProject := "stock"
  projects := [
    ⟨⟨["libs", "core"]⟩, some "org.stock", some "1", [coreDefault]⟩,
    ⟨.root, none, none, [bare "api" [.project ⟨["libs"]⟩ false (.targeting none)]]⟩,
    ⟨⟨["libs", "core"]⟩, none, some "2", [bare "api" []]⟩]

theorem load_exact_stock :
    stock.Loadable ∧
    ∃ b id p, stock.load .empty ⟨0⟩ = .ok b ∧ b.tree.projects[(⟨["libs", "core"]⟩ : ProjectPath)]? = some id ∧
      b.store.project? id = some p ∧ (p.name, p.group, p.version) = ("core", "org.stock", "2") ∧
      ∃ c, p.container.find? "default" = some c ∧ c.owner = ⟨["libs", "core"]⟩ ∧
        coreDefault.Describes b c.toDeclaration := by
  obtain ⟨hloadable, hexact⟩ := load_exact stock .empty ⟨0⟩
  have hstock : stock.Loadable := by decide +kernel
  obtain ⟨b, hb⟩ := hloadable.2 hstock
  obtain ⟨hpaths, hprojects⟩ := hexact b hb
  have hcore : (⟨["libs", "core"]⟩ : ProjectPath) ∈ b.tree.projects :=
    (hpaths _).2 (Or.inr ⟨_, List.mem_cons_self, List.prefix_refl _⟩)
  obtain ⟨id, hid⟩ := Build.mem_tree_iff.1 hcore
  obtain ⟨p, hp, hfills⟩ := hprojects _ id hid
  refine ⟨hstock, b, id, p, hb, hid, hp, ?_, hfills.holds.every coreDefault List.mem_cons_self⟩
  rw [hfills.name_eq, hfills.group_eq, hfills.version_eq]
  decide +kernel

end BuildFile

end ProjectGraph
