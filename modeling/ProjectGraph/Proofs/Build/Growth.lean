import ProjectGraph.Proofs.Build.Runs
import ProjectGraph.Proofs.Loops
import Mathlib.Data.List.Infix

/-!
How the tree of a build grows. Where a project is asked for, the tree is searched upwards for a project that is there
already, and what is missing below that is made from the top downwards. This gives what going down from the root would
give (`enroll_eq`), as long as the root is there and no project stands in the tree without the one above it (`Rooted`).
That is so in every reachable build. So no request fails, the projects of a tree are the root and all that stand above
a path that was asked for, and those that were there before are left as they are.
-/

namespace ProjectGraph

namespace ProjectPath

/-! ### The way down -/

theorem descentFrom_append (above below : List String) (s : String) :
    descentFrom above (below ++ [s]) =
      descentFrom above below ++ [(⟨(s :: (below.reverse ++ above)).reverse⟩, s)] := by
  induction below generalizing above with
  | nil => rfl
  | cons t below ih =>
      rw [List.cons_append, descentFrom, ih, descentFrom]
      simp

theorem descent_append (segments : List String) (s : String) :
    descent ⟨segments ++ [s]⟩ = descent ⟨segments⟩ ++ [(⟨segments ++ [s]⟩, s)] := by
  simp [descent, descentFrom_append]

theorem name?_append (segments : List String) (s : String) : name? ⟨segments ++ [s]⟩ = some s := by
  simp [name?]

theorem parent?_append (segments : List String) (s : String) : parent? ⟨segments ++ [s]⟩ = some ⟨segments⟩ := by
  simp [parent?]

theorem append_ne_root (segments : List String) (s : String) : (⟨segments ++ [s]⟩ : ProjectPath) ≠ root := by
  simp [root]

/-- A path is the root or stands below another one. -/
theorem eq_root_or_append (p : ProjectPath) : p = root ∨ ∃ segments s, p = ⟨segments ++ [s]⟩ := by
  obtain ⟨segments⟩ := p
  rcases List.eq_nil_or_concat segments with rfl | ⟨above, s, rfl⟩
  · exact Or.inl rfl
  · exact Or.inr ⟨above, s, by rw [List.concat_eq_append]⟩

/-- What holds of the root, and of a path if it holds of the one above, holds of all paths. -/
@[elab_as_elim]
theorem downwards {motive : ProjectPath → Prop} (root : motive root)
    (append : ∀ segments s, motive ⟨segments⟩ → motive ⟨segments ++ [s]⟩) (p : ProjectPath) : motive p := by
  obtain ⟨segments⟩ := p
  induction segments using List.reverseRecOn with
  | nil => exact root
  | append_singleton segments s ih => exact append segments s ih

end ProjectPath

namespace Build

variable {b b' b'' : Build} {path other : ProjectPath} {id : ProjectId} {name s : String} {segments : List String}

/-! ### One more project -/

theorem mem_tree_iff : path ∈ b.tree.projects ↔ ∃ id, b.tree.projects[path]? = some id := by
  rw [Std.ExtTreeMap.mem_iff_isSome_getElem?, Option.isSome_iff_exists]

theorem ensure_of_some (h : b.tree.projects[path]? = some id) (name : String) : b.ensure path name = (b, id) := by
  simp [ensure, h]

theorem ensure_of_none (h : b.tree.projects[path]? = none) (name : String) : b.ensure path name = b.add path name := by
  simp [ensure, h]

theorem create_append (b : Build) (segments : List String) (s : String) :
    b.create ⟨segments ++ [s]⟩ = .ok (b.add ⟨segments ++ [s]⟩ s) := by
  rw [create, ProjectPath.name?_append]

/-- What may become of a build when projects are added: all that was there stays, and new projects are as made. -/
structure Grows (b b' : Build) : Prop where
  root_eq : b'.tree.root = b.tree.root
  reporter_eq : b'.tree.reporter = b.tree.reporter
  kept : ∀ {path : ProjectPath} {id : ProjectId}, b.tree.projects[path]? = some id → b'.tree.projects[path]? = some id
  alive : ∀ {id : ProjectId} {p : Project}, b.store.project? id = some p → b'.store.project? id = some p
  fresh : ∀ {path : ProjectPath} {id : ProjectId}, b.tree.projects[path]? = none → b'.tree.projects[path]? = some id →
    ∃ name, path.name? = some name ∧ b'.store.project? id = some (.new path name b.tree.reporter)

theorem Grows.refl (b : Build) : b.Grows b where
  root_eq := rfl
  reporter_eq := rfl
  kept h := h
  alive h := h
  fresh hfree hid := by
    rw [hfree] at hid
    cases hid

theorem Grows.trans (h : b.Grows b') (h' : b'.Grows b'') : b.Grows b'' where
  root_eq := h'.root_eq.trans h.root_eq
  reporter_eq := h'.reporter_eq.trans h.reporter_eq
  kept hid := h'.kept (h.kept hid)
  alive hp := h'.alive (h.alive hp)
  fresh {path id} hfree hid := by
    cases hbetween : b'.tree.projects[path]? with
    | none =>
        rw [← h.reporter_eq]
        exact h'.fresh hbetween hid
    | some id' =>
        -- It was made in the first half and is still there.
        have hkept := h'.kept hbetween
        rw [hid] at hkept
        cases hkept
        obtain ⟨name, hname, hp⟩ := h.fresh hfree hbetween
        exact ⟨name, hname, h'.alive hp⟩

theorem grows_add (hfree : b.tree.projects[path]? = none) (hname : path.name? = some name) :
    b.Grows (b.add path name).1 where
  root_eq := rfl
  reporter_eq := rfl
  kept {other id} hid := by
    rw [getElem?_add, if_neg]
    · exact hid
    · rintro rfl
      rw [hfree] at hid
      cases hid
  alive hp := project?_add_of_some hp path name
  fresh {other id} hnone hid := by
    rw [getElem?_add] at hid
    split at hid
    · rename_i heq
      cases hid
      subst heq
      exact ⟨name, hname, by rw [project?_add, if_pos rfl]⟩
    · rw [hnone] at hid
      cases hid

theorem grows_ensure (b : Build) (hname : path.name? = some name) : b.Grows (b.ensure path name).1 :=
  ensure_keeps (.refl b) fun hfree => grows_add hfree hname

theorem mem_ensure_iff : other ∈ (b.ensure path name).1.tree.projects ↔ other ∈ b.tree.projects ∨ other = path := by
  cases hid : b.tree.projects[path]? with
  | some id =>
      rw [ensure_of_some hid]
      refine ⟨Or.inl, ?_⟩
      rintro (h | rfl)
      · exact h
      · exact mem_tree_iff.2 ⟨id, hid⟩
  | none =>
      rw [ensure_of_none hid]
      simp only [Std.ExtTreeMap.mem_iff_isSome_getElem?, getElem?_add]
      split
      · rename_i heq
        simp [heq]
      · rename_i hne
        simp [Ne.symm hne]

theorem getElem?_ensure_self (b : Build) (path : ProjectPath) (name : String) :
    (b.ensure path name).1.tree.projects[path]? = some (b.ensure path name).2 := by
  cases hid : b.tree.projects[path]? with
  | some id =>
      rw [ensure_of_some hid]
      exact hid
  | none => rw [ensure_of_none hid, getElem?_add, if_pos rfl]

/-! ### Going down from the root -/

theorem addProject_append (b : Build) (segments : List String) (s : String) :
    b.addProject ⟨segments ++ [s]⟩ = (b.addProject ⟨segments⟩).1.ensure ⟨segments ++ [s]⟩ s := by
  rw [addProject, ProjectPath.descent_append, List.foldl_append]
  rfl

theorem grows_addProject (b : Build) (path : ProjectPath) : b.Grows (b.addProject path).1 := by
  induction path using ProjectPath.downwards with
  | root => exact .refl b
  | append segments s ih =>
      rw [addProject_append]
      exact ih.trans (grows_ensure _ (ProjectPath.name?_append segments s))

theorem mem_addProject_iff :
    other ∈ (b.addProject path).1.tree.projects ↔
      other ∈ b.tree.projects ∨ other ≠ .root ∧ other.segments <+: path.segments := by
  induction path using ProjectPath.downwards with
  | root =>
      refine ⟨Or.inl, ?_⟩
      rintro (h | ⟨hne, hprefix⟩)
      · exact h
      · obtain ⟨segments⟩ := other
        exact absurd (congrArg ProjectPath.mk (List.prefix_nil.1 hprefix)) hne
  | append segments s ih =>
      have hlast : other = ⟨segments ++ [s]⟩ ↔ other ≠ .root ∧ other.segments = segments ++ [s] := by
        constructor
        · rintro rfl
          exact ⟨ProjectPath.append_ne_root segments s, rfl⟩
        · rintro ⟨_, heq⟩
          exact congrArg ProjectPath.mk heq
      rw [addProject_append, mem_ensure_iff, ih, hlast, List.prefix_concat_iff, and_or_left, or_assoc]
      exact or_congr_right or_comm

/-- Two paths cannot lead to one project, since it has one path. -/
theorem Coherent.path_unique (h : b.Coherent) (hpath : b.tree.projects[path]? = some id)
    (hother : b.tree.projects[other]? = some id) : path = other := by
  obtain ⟨p, hp, hsound⟩ := h path id hpath
  obtain ⟨q, hq, hsound'⟩ := h other id hother
  rw [hp] at hq
  cases hq
  exact hsound.path_eq.symm.trans hsound'.path_eq

/-! ### Rooted trees -/

/-- The root is there, and above every project there is one. -/
structure Rooted (b : Build) : Prop where
  root : b.tree.projects[ProjectPath.root]? = some b.tree.root
  above : ∀ {segments : List String} {s : String},
    ⟨segments ++ [s]⟩ ∈ b.tree.projects → ⟨segments⟩ ∈ b.tree.projects

theorem rooted_start (store : Store) (rootName : String) (reporter : ReporterId) :
    (start store rootName reporter).Rooted where
  root := by simp [start]
  above {segments s} h := by
    exact absurd (mem_start_iff.1 h) (ProjectPath.append_ne_root segments s)

theorem Rooted.addProject (h : b.Rooted) (path : ProjectPath) : (b.addProject path).1.Rooted where
  root := by
    rw [(grows_addProject b path).root_eq]
    exact (grows_addProject b path).kept h.root
  above {segments s} hmem := by
    rw [mem_addProject_iff] at hmem ⊢
    rcases hmem with hmem | ⟨_, hprefix⟩
    · exact Or.inl (h.above hmem)
    · by_cases hroot : (⟨segments⟩ : ProjectPath) = .root
      · left
        rw [hroot]
        exact mem_tree_iff.2 ⟨_, h.root⟩
      · exact Or.inr ⟨hroot, (List.prefix_append segments [s]).trans hprefix⟩

theorem Reachable.rooted (h : b.Reachable) : b.Rooted := by
  induction h with
  | start store rootName reporter => exact rooted_start store rootName reporter
  | addProject path before ih => exact ih.addProject path
  | change id f before becomes ih => exact ⟨ih.root, ih.above⟩
  | elsewhere store before same ih => exact ⟨ih.root, ih.above⟩

/-! ### Searching upwards -/

theorem createAll_keeps {P : Build → Prop}
    (keeps : ∀ (b : Build) (path : ProjectPath) (name : String), P b → P (b.add path name).1) (h : P b)
    {paths : List ProjectPath} {last : Option ProjectId} (hok : b.createAll paths = .ok (b', last)) : P b' := by
  refine foldlM_keeps (P := fun made : Build × Option ProjectId => P made.1) ?_ h hok
  intro made path made' _ hmade hstep
  obtain ⟨⟨next, id⟩, hcreate, hstep⟩ := except_bind_eq_ok.1 hstep
  cases hstep
  unfold create at hcreate
  split at hcreate
  · cases hcreate
    exact keeps made.1 path _ hmade
  · cases hcreate

/-- What is kept whenever a project is added is kept by a request. -/
theorem enroll_keeps {P : Build → Prop}
    (keeps : ∀ (b : Build) (path : ProjectPath) (name : String), P b → P (b.add path name).1) (h : P b)
    (hok : b.enroll path = .ok (b', id)) : P b' := by
  unfold enroll at hok
  split at hok
  · cases hok
    exact h
  · obtain ⟨⟨made, last⟩, hmade, hok⟩ := except_bind_eq_ok.1 hok
    have hkept : P made := createAll_keeps keeps h hmade
    cases last with
    | some id =>
        cases hok
        exact hkept
    | none => cases hok

/-- Going down to a project that is there makes nothing. -/
theorem Rooted.addProject_of_some (h : b.Rooted) (hid : b.tree.projects[path]? = some id) :
    b.addProject path = (b, id) := by
  induction path using ProjectPath.downwards generalizing id with
  | root =>
      rw [h.root] at hid
      cases hid
      rfl
  | append segments s ih =>
      have habove : (⟨segments⟩ : ProjectPath) ∈ b.tree.projects := h.above (mem_tree_iff.2 ⟨id, hid⟩)
      obtain ⟨idAbove, hidAbove⟩ := mem_tree_iff.1 habove
      rw [addProject_append, ih hidAbove]
      exact ensure_of_some hid s

/-- Making what the search finds missing is going down from the root. -/
theorem Rooted.createAll_missing (h : b.Rooted) (hfree : b.tree.projects[path]? = none) :
    b.createAll (path :: b.missingAbove path.segments.reverse).reverse =
      .ok ((b.addProject path).1, some (b.addProject path).2) := by
  induction path using ProjectPath.downwards with
  | root =>
      rw [h.root] at hfree
      cases hfree
  | append segments s ih =>
      rw [addProject_append, List.reverse_append, List.reverse_singleton, List.singleton_append, missingAbove,
        List.reverse_reverse]
      cases habove : b.tree.projects[(⟨segments⟩ : ProjectPath)]? with
      | some id =>
          have hthere : b.tree.projects.contains ⟨segments⟩ = true := by
            rw [Std.ExtTreeMap.contains_eq_isSome_getElem?, habove]
            rfl
          rw [h.addProject_of_some habove, ensure_of_none hfree]
          simp [hthere, createAll, create_append]
      | none =>
          have hmissing : b.tree.projects.contains ⟨segments⟩ = false := by
            rw [Std.ExtTreeMap.contains_eq_isSome_getElem?, habove]
            rfl
          -- Making the projects above has not made this one.
          have hstill : (b.addProject ⟨segments⟩).1.tree.projects[(⟨segments ++ [s]⟩ : ProjectPath)]? = none := by
            rw [← Option.not_isSome_iff_eq_none, ← Std.ExtTreeMap.mem_iff_isSome_getElem?, mem_addProject_iff]
            rintro (hmem | ⟨_, hprefix⟩)
            · obtain ⟨id, hid⟩ := mem_tree_iff.1 hmem
              rw [hfree] at hid
              cases hid
            · have hlength : (segments ++ [s]).length ≤ segments.length := hprefix.length_le
              rw [List.length_append, List.length_singleton] at hlength
              exact Nat.not_succ_le_self _ hlength
          have hfirst := ih habove
          simp only [hmissing, Bool.false_eq_true, if_false]
          rw [List.reverse_cons, createAll, List.foldlM_append]
          rw [createAll] at hfirst
          rw [hfirst, ensure_of_none hstill]
          simp [create_append]
          rfl

/-- In a rooted tree a request succeeds, with what going down from the root gives. -/
theorem Rooted.enroll_eq (h : b.Rooted) (path : ProjectPath) : b.enroll path = .ok (b.addProject path) := by
  unfold enroll
  split
  · rename_i id hid
    rw [h.addProject_of_some hid]
  · rename_i hfree
    simp only [h.createAll_missing hfree]
    rfl

theorem Rooted.addProject_eq (h : b.Rooted) (request : b.enroll path = .ok (b', id)) : b.addProject path = (b', id) :=
  Except.ok.inj ((h.enroll_eq path).symm.trans request)

/-- Going down to a path ends at the project there. -/
theorem Rooted.getElem?_addProject (h : b.Rooted) (path : ProjectPath) :
    (b.addProject path).1.tree.projects[path]? = some (b.addProject path).2 := by
  rcases path.eq_root_or_append with rfl | ⟨segments, s, rfl⟩
  · exact h.root
  · rw [addProject_append]
    exact getElem?_ensure_self _ _ s

/-! ### Runs of requests -/

/--
The builds that come of a root when projects are asked for one after the other, with the paths that were asked for. In
between projects may be changed, and other builds may use the store.
-/
inductive Grown : List ProjectPath → Build → Prop
  | start (store : Store) (rootName : String) (reporter : ReporterId) : Grown [] (.start store rootName reporter)
  | enroll {requested : List ProjectPath} {b b' : Build} {id : ProjectId} (path : ProjectPath)
      (before : Grown requested b) (request : b.enroll path = .ok (b', id)) : Grown (requested ++ [path]) b'
  | change {requested : List ProjectPath} {b : Build} (id : ProjectId) (f : Project → Project)
      (before : Grown requested b) (becomes : ∀ p, b.store.project? id = some p → p.Becomes (f p)) :
      Grown requested { b with store := b.store.modify id f }
  | elsewhere {requested : List ProjectPath} {b : Build} (store : Store) (before : Grown requested b)
      (same : ∀ (path : ProjectPath) (id : ProjectId), b.tree.projects[path]? = some id →
        store.project? id = b.store.project? id) :
      Grown requested { b with store }

/-- Requests for projects, one after the other. -/
def enrollAll (b : Build) (paths : List ProjectPath) : Except BuildError Build :=
  paths.foldlM (fun b path => (b.enroll path).map Prod.fst) b

variable {requested : List ProjectPath}

theorem Grown.reachable (h : Grown requested b) : b.Reachable := by
  induction h with
  | start store rootName reporter => exact .start store rootName reporter
  | @enroll requested b b' id path before request ih =>
      have hmade : (b.addProject path).1 = b' := congrArg Prod.fst (ih.rooted.addProject_eq request)
      rw [← hmade]
      exact ih.addProject path
  | change id f before becomes ih => exact ih.change id f becomes
  | elsewhere store before same ih => exact ih.elsewhere store same

/-- The projects of a tree are the root and what stands on the way down to a requested path. -/
theorem Grown.mem_iff (h : Grown requested b) :
    path ∈ b.tree.projects ↔ path = .root ∨ ∃ q ∈ requested, path.segments <+: q.segments := by
  induction h generalizing path with
  | start store rootName reporter => simp [mem_start_iff]
  | @enroll requested b b' id new before request ih =>
      have hmade : (b.addProject new).1 = b' := congrArg Prod.fst (before.reachable.rooted.addProject_eq request)
      rw [← hmade, mem_addProject_iff, ih]
      by_cases hroot : path = .root
      · simp [hroot]
      · simp [hroot, or_and_right, exists_or]
  | change id f before becomes ih => exact ih
  | elsewhere store before same ih => exact ih

/-- A request gives the project at the path, whether it was there or not. -/
theorem Grown.request (h : Grown requested b) (path : ProjectPath) :
    ∃ b' id, b.enroll path = .ok (b', id) ∧ Grown (requested ++ [path]) b' ∧ b.Grows b' ∧
      b'.tree.projects[path]? = some id := by
  have hrooted : b.Rooted := h.reachable.rooted
  have henroll : b.enroll path = .ok ((b.addProject path).1, (b.addProject path).2) := hrooted.enroll_eq path
  exact ⟨_, _, henroll, h.enroll path henroll, grows_addProject b path, hrooted.getElem?_addProject path⟩

theorem Grown.requests (h : Grown requested b) (later : List ProjectPath) :
    ∃ b', b.enrollAll later = .ok b' ∧ Grown (requested ++ later) b' ∧ b.Grows b' := by
  induction later generalizing requested b with
  | nil => exact ⟨b, rfl, by rwa [List.append_nil], .refl b⟩
  | cons path later ih =>
      obtain ⟨next, id, henroll, hnext, hgrows, _⟩ := h.request path
      obtain ⟨b', hlater, hgrown, hgrows'⟩ := ih hnext
      refine ⟨b', ?_, ?_, hgrows.trans hgrows'⟩
      · rw [enrollAll, List.foldlM_cons, henroll]
        exact hlater
      · rwa [List.append_assoc, List.singleton_append] at hgrown

/--
Whatever was asked for and changed before: the tree holds the root and all that stands above a requested path, each path
leads to a project of that path, no request fails, and requests leave alone what is there.
-/
theorem requests_grow_the_tree (h : Grown requested b) :
    (∀ path, path ∈ b.tree.projects ↔ path = .root ∨ ∃ q ∈ requested, path.segments <+: q.segments) ∧
    (∀ path parent, path ∈ b.tree.projects → path.parent? = some parent → parent ∈ b.tree.projects) ∧
    (∀ (path : ProjectPath) (id : ProjectId), b.tree.projects[path]? = some id →
      ∃ p, b.store.project? id = some p ∧ p.path = path) ∧
    b.tree.projects[ProjectPath.root]? = some b.tree.root ∧
    (∀ path, ∃ b' id p, b.enroll path = .ok (b', id) ∧ b'.tree.projects[path]? = some id ∧
      b'.store.project? id = some p ∧ p.path = path) ∧
    ∀ later, ∃ b', b.enrollAll later = .ok b' ∧ Grown (requested ++ later) b' ∧ b'.tree.root = b.tree.root ∧
      ∀ (path : ProjectPath) (id : ProjectId), b.tree.projects[path]? = some id →
        b'.tree.projects[path]? = some id ∧ b'.store.project? id = b.store.project? id := by
  have hrooted : b.Rooted := h.reachable.rooted
  refine ⟨fun path => h.mem_iff, ?_, ?_, hrooted.root, ?_, ?_⟩
  · intro path parent hpath hparent
    rcases path.eq_root_or_append with rfl | ⟨segments, s, rfl⟩
    · cases hparent
    · rw [ProjectPath.parent?_append] at hparent
      cases hparent
      exact hrooted.above hpath
  · intro path id hid
    obtain ⟨p, hp, hsound⟩ := h.reachable.coherent path id hid
    exact ⟨p, hp, hsound.path_eq⟩
  · intro path
    obtain ⟨b', id, henroll, hgrown, _, hid⟩ := h.request path
    obtain ⟨p, hp, hsound⟩ := hgrown.reachable.coherent path id hid
    exact ⟨b', id, p, henroll, hid, hp, hsound.path_eq⟩
  · intro later
    obtain ⟨b', hlater, hgrown, hgrows⟩ := h.requests later
    refine ⟨b', hlater, hgrown, hgrows.root_eq, ?_⟩
    intro path id hid
    obtain ⟨p, hp, _⟩ := h.reachable.coherent path id hid
    exact ⟨hgrows.kept hid, (hgrows.alive hp).trans hp.symm⟩

/-- A shop where a library was asked for before the project above it, which has a group and a configuration now. -/
def shelves : Build :=
  let b := ((start .empty "shop" ⟨0⟩).addProject ⟨["libs", "core"]⟩).1
  { b with store := b.store.modify ⟨1⟩ fun p => { p.declare (.named "api") with group := "org.shop" } }

theorem grown_shelves : Grown [⟨["libs", "core"]⟩] shelves :=
  (Grown.enroll _ (.start .empty "shop" ⟨0⟩) ((rooted_start _ _ _).enroll_eq ⟨["libs", "core"]⟩)).change ⟨1⟩ _
    fun _ _ => ⟨rfl, rfl, .register (.named "api") (.refl _)⟩

theorem requests_grow_the_tree_shelves :
    Grown [⟨["libs", "core"]⟩] shelves ∧
    ∃ b', shelves.enrollAll [⟨["libs"]⟩, ⟨["libs", "core", "base"]⟩, ⟨["apps"]⟩, .root] = .ok b' ∧
      (⟨["libs", "core"]⟩ : ProjectPath) ∈ b'.tree.projects ∧ (⟨["core"]⟩ : ProjectPath) ∉ b'.tree.projects ∧
      b'.tree.projects[(⟨["libs"]⟩ : ProjectPath)]? = some ⟨1⟩ ∧
      (b'.store.project? ⟨1⟩).map (fun p => (p.group, p.container.names)) = some ("org.shop", ["api"]) := by
  obtain ⟨_, _, _, _, _, hlater⟩ := requests_grow_the_tree grown_shelves
  obtain ⟨b', hrequests, hgrown, _, hkept⟩ := hlater [⟨["libs"]⟩, ⟨["libs", "core", "base"]⟩, ⟨["apps"]⟩, .root]
  obtain ⟨hpaths, _⟩ := requests_grow_the_tree hgrown
  have hlibs : shelves.tree.projects[(⟨["libs"]⟩ : ProjectPath)]? = some ⟨1⟩ := by decide +kernel
  obtain ⟨hid, hp⟩ := hkept ⟨["libs"]⟩ ⟨1⟩ hlibs
  refine ⟨grown_shelves, b', hrequests, (hpaths _).2 (by decide), fun h => absurd ((hpaths _).1 h) (by decide), hid, ?_⟩
  rw [hp]
  decide +kernel

end Build

end ProjectGraph
