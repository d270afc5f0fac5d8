import ProjectGraph.Proofs.Store.Runs

/-!
What errors call a project. A container keeps what its project was called when it was made, and all its errors say
that. An edge that selects a configuration which is no target says what the project is called now. A project below the
root goes by its path, so there is no difference; the root project goes by its name, and the name may be set. So as
soon as the root has another name than at first, errors about one and the same project call it by two names
(`renamed_root_called_apart`).
-/

namespace ProjectGraph

/-- What an error calls the project that it is about. -/
def BuildError.project? : BuildError → Option String
  | .noSuchConfiguration project _ => some project
  | .notConsumable project _ => some project
  | .duplicateConfiguration project _ => some project
  | .configurationCycle project _ => some project
  | _ => none

namespace Container

variable {k : Container} {x : BuildError}

/-- An operation on the container fails with the error. The action of a rebuild may do to the container what it likes,
and the configuration whose hierarchy is asked for need not be registered. -/
inductive Refuses (k : Container) : BuildError → Prop
  | register {d : Declaration} {x : BuildError} (failed : (k.register d).2 = .error x) : Refuses k x
  | configure {name : String} {action : Declaration → Container → Declaration × Container} {x : BuildError}
      (during : ∀ c, k.find? name = some c → k.Run (action c.toDeclaration k).2)
      (failed : (k.configure name action).2 = .error x) : Refuses k x
  | rename {source target : String} {x : BuildError} (failed : (k.rename source target).2 = .error x) : Refuses k x
  | find {name : String} {x : BuildError} (failed : k.find name = .error x) : Refuses k x
  | hierarchy {c : Configuration} {x : BuildError} (failed : k.hierarchy c = .error x) : Refuses k x

/-! ### Errors of a container -/

theorem project?_of_register {d : Declaration} (h : (k.register d).2 = .error x) : x.project? = some k.ownerName := by
  obtain heq | ⟨_, heq⟩ := k.register_cases d
  · rw [heq] at h
    cases h
    rfl
  · rw [heq] at h
    cases h

theorem project?_of_find {name : String} (h : k.find name = .error x) : x.project? = some k.ownerName := by
  obtain ⟨_, rfl⟩ := find_eq_error.1 h
  rfl

theorem project?_of_configure {name : String} {action : Declaration → Container → Declaration × Container}
    (during : ∀ c, k.find? name = some c → k.Run (action c.toDeclaration k).2)
    (h : (k.configure name action).2 = .error x) : x.project? = some k.ownerName := by
  unfold configure at h
  split at h
  · rename_i y hfind
    cases h
    exact project?_of_find hfind
  · rename_i c hfind
    -- The error comes from what the action has left.
    have hleft := (during c (find_eq_ok.1 hfind)).ownerName_eq
    simp only [replace] at h
    split at h
    · cases h
    · cases h
      rw [← hleft]
      rfl

theorem project?_of_rename {source target : String} (h : (k.rename source target).2 = .error x) :
    x.project? = some k.ownerName := by
  unfold rename remove at h
  split at h
  · cases h
    rfl
  · cases hsource : k.find? source with
    | none =>
        rw [hsource] at h
        cases h
        rfl
    | some c =>
        rw [hsource] at h
        cases h

theorem project?_of_climb {visiting parents : List String} {entered : Entered}
    (h : k.climb visiting entered parents = .error x) : x.project? = some k.ownerName := by
  fun_induction climb k visiting entered parents with
  | case1 => cases h
  | case2 visiting entered parent parents y hfound =>
      cases h
      exact project?_of_find hfound
  | case3 =>
      cases h
      rfl
  | case4 visiting entered parent parents c hfound hnew hold ih => exact ih h
  | case5 visiting entered parent parents c hfound hnew hnot y hinner ih =>
      cases h
      exact ih hinner
  | case6 visiting entered parent parents c hfound hnew hnot inner hinner ih₁ ih₂ => exact ih₂ h

theorem project?_of_hierarchy {c : Configuration} (h : k.hierarchy c = .error x) : x.project? = some k.ownerName := by
  unfold hierarchy at h
  cases hclimb : k.climb [c.name] (.start c) c.extendsFrom with
  | error y =>
      rw [hclimb] at h
      cases h
      exact project?_of_climb hclimb
  | ok entered =>
      rw [hclimb] at h
      cases h

/-- All errors of a container call its project what the container does. -/
theorem Refuses.project?_eq (h : k.Refuses x) : x.project? = some k.ownerName := by
  cases h with
  | register failed => exact project?_of_register failed
  | configure during failed => exact project?_of_configure during failed
  | rename failed => exact project?_of_rename failed
  | find failed => exact project?_of_find failed
  | hierarchy failed => exact project?_of_hierarchy failed

end Container

/-! ### What a project is called -/

namespace Project

variable {path : ProjectPath} {name name' : String}

theorem displayNameOf_root : displayNameOf .root name = "root project '" ++ name ++ "'" := rfl

theorem displayNameOf_of_ne_root (h : path ≠ .root) : displayNameOf path name = "project '" ++ path.render ++ "'" := by
  rw [displayNameOf, if_neg fun hroot => h (ProjectPath.isRoot_iff.1 hroot)]

/-- Below the root the name does not count. -/
theorem displayNameOf_eq_iff : displayNameOf path name = displayNameOf path name' ↔ (path = .root → name = name') := by
  by_cases hroot : path = .root
  · subst hroot
    rw [displayNameOf_root, displayNameOf_root, String.append_left_inj, String.append_right_inj]
    exact ⟨fun h _ => h, fun h => h rfl⟩
  · rw [displayNameOf_of_ne_root hroot, displayNameOf_of_ne_root hroot]
    exact ⟨fun _ h => absurd h hroot, fun _ => rfl⟩

end Project

namespace Store

variable {s₀ s : Store} {p : Project} {id : ProjectId} {path : ProjectPath} {name : String} {reporter : ReporterId}

theorem Run.ownerName_eq (h : s₀.Run s) (made : s₀.project? id = some (.new path name reporter))
    (hp : s.project? id = some p) : p.container.ownerName = Project.displayNameOf path name :=
  (h.becomes_of_project? made hp).run.ownerName_eq

/-- Whatever has happened to a project since it was made: the errors of its container call it what it was called then,
and so does an edge to it that finds no configuration. An edge that finds one which is no target calls it what it is
called now. The two are the same for a project below the root, and for a root project that has its first name. -/
theorem errors_name_the_project (made : s₀.project? id = some (.new path name reporter)) (run : s₀.Run s)
    (hp : s.project? id = some p) :
    let atFirst := Project.displayNameOf path name
    (∀ x, p.container.Refuses x → x.project? = some atFirst) ∧
    (∀ e x, e.producer = id → (s.select e).result = .error x →
      x = .noSuchConfiguration atFirst e.target ∨ ∃ configuration, x = .notConsumable p.displayName configuration) ∧
    (atFirst = p.displayName ↔ (path = .root → name = p.name)) := by
  intro atFirst
  have hname : p.container.ownerName = atFirst := run.ownerName_eq made hp
  refine ⟨fun x hx => hname ▸ hx.project?_eq, fun e x he hx => ?_, ?_⟩
  · subst he
    cases select_eq_error.1 hx with
    | gone gone =>
        rw [hp] at gone
        cases gone
    | missing there missing =>
        cases hp.symm.trans there
        exact Or.inl (by rw [hname])
    | notConsumable there found barred =>
        cases hp.symm.trans there
        exact Or.inr ⟨_, rfl⟩
  · have hpath : p.path = path := (run.becomes_of_project? made hp).path_eq
    rw [Project.displayName, hpath]
    exact Project.displayNameOf_eq_iff

/-! ### A shop that is given another name -/

/-- A shop with a library. -/
def founded : Store :=
  ((Build.start (empty.addReporter .all).1 "shop" ⟨0⟩).addProject ⟨["lib"]⟩).1.store

/-- Shop and library by other names; the shop keeps a configuration to itself. -/
def renamed : Store :=
  let kept := founded.modify ⟨0⟩ (·.declare { Declaration.named "ledger" with roles := .resolvableOnly })
  (kept.modify ⟨0⟩ fun p => { p with name := "store" }).modify ⟨1⟩ fun p => { p with name := "library" }

def edgeToLedger : Edge := .requesting ⟨0⟩ .root true (.targeting (some "ledger"))

theorem run_renamed : founded.Run renamed := by
  have hstay : founded.Run founded := .refl
  have hkept := hstay.change ⟨0⟩ (·.declare { Declaration.named "ledger" with roles := .resolvableOnly })
    fun p => p.becomes_declare _
  have hstore := hkept.change ⟨0⟩ (fun p => { p with name := "store" }) fun p => ⟨rfl, rfl, .refl _⟩
  exact hstore.change ⟨1⟩ (fun p => { p with name := "library" }) fun p => ⟨rfl, rfl, .refl _⟩

theorem founded_root : founded.project? ⟨0⟩ = some (.new .root "shop" ⟨0⟩) := by rfl

theorem founded_lib : founded.project? ⟨1⟩ = some (.new ⟨["lib"]⟩ "lib" ⟨0⟩) := by rfl

theorem errors_name_the_project_renamed :
    (∃ p, renamed.project? ⟨0⟩ = some p ∧ p.displayName = "root project 'store'" ∧
      (∀ x, p.container.Refuses x → x.project? = some "root project 'shop'") ∧
      (renamed.select edgeToLedger).result = .error (.notConsumable p.displayName "ledger")) ∧
    ∃ p, renamed.project? ⟨1⟩ = some p ∧ p.name = "library" ∧
      ∀ x, p.container.Refuses x → x.project? = some p.displayName := by
  constructor
  · have hstore : (renamed.project? ⟨0⟩).map (·.displayName) = some "root project 'store'" := by decide +kernel
    obtain ⟨p, hp, hname⟩ := Option.map_eq_some_iff.1 hstore
    obtain ⟨hcontainer, _, _⟩ := errors_name_the_project founded_root run_renamed hp
    have hbarred : Container.failure? (renamed.select edgeToLedger).result =
        some (.notConsumable "root project 'store'" "ledger") := by
      decide +kernel
    refine ⟨p, hp, hname, hcontainer, ?_⟩
    rw [hname]
    exact Container.eq_error_of_failure? hbarred
  · have hlibrary : (renamed.project? ⟨1⟩).map (·.name) = some "library" := by decide +kernel
    obtain ⟨p, hp, hname⟩ := Option.map_eq_some_iff.1 hlibrary
    obtain ⟨hcontainer, _, hsame⟩ := errors_name_the_project founded_lib run_renamed hp
    refine ⟨p, hp, hname, fun x hx => ?_⟩
    rw [← hsame.2 fun hroot => absurd hroot (by decide)]
    exact hcontainer x hx

theorem renamed_root_called_apart :
    founded.Run renamed ∧ ∃ p, renamed.project? ⟨0⟩ = some p ∧ p.displayName = "root project 'store'" ∧
      p.container.find "api" = .error (.noSuchConfiguration "root project 'shop'" "api") ∧
      (renamed.select edgeToLedger).result = .error (.notConsumable "root project 'store'" "ledger") := by
  have hstore : (renamed.project? ⟨0⟩).map (fun p => (p.displayName, Container.failure? (p.container.find "api"))) =
      some ("root project 'store'", some (.noSuchConfiguration "root project 'shop'" "api")) := by
    decide +kernel
  obtain ⟨p, hp, hstore⟩ := Option.map_eq_some_iff.1 hstore
  obtain ⟨hname, hfind⟩ := Prod.mk.inj hstore
  exact ⟨run_renamed, p, hp, hname, Container.eq_error_of_failure? hfind,
    Container.eq_error_of_failure? (by decide +kernel)⟩

end Store

end ProjectGraph
