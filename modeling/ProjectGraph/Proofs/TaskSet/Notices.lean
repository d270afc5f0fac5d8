import ProjectGraph.Proofs.Build.Reporters
import ProjectGraph.Proofs.Store.Runs
import ProjectGraph.Proofs.TaskSet.Reachability
import ProjectGraph.Session.Operations
import Mathlib.Algebra.Ring.Nat

/-!
The notices of task queries. An edge that comes up again is looked up again, so it raises the notice of a deprecated
target once for the query that starts with it, and once more for each configuration that needs it. Configurations
are recognised by owner and name, and each is worked off once.

The proof keeps a `Tally`: what was raised so far and what the waiting nodes are still going to raise is together
what the first nodes raise and what the needs of the configurations worked off so far raise.
-/

namespace ProjectGraph

namespace Store

variable {s : Store} {es : List Edge} {seen waiting : List BuildNode} {dealt : Dealt} {raised : List Raised}
  {worked : List (ProjectId × Configuration)}

/-! ### What nodes raise -/

/-- The notice that a dependency raises in a task query. Only edges that build their producers are looked up. -/
def taskNoticeOf (s : Store) : Dependency → Option Raised
  | .module _ => none
  | .project e => if e.buildsProducer then s.noticeOf (.project e) else none

/-- What a configuration declares or inherits in its project. -/
def needsOf (s : Store) (k : ProjectId × Configuration) : List Dependency :=
  match s.project? k.1 with
  | none => []
  | some p =>
    match p.container.allDependencies k.2 with
    | .ok ds => ds
    | .error _ => []

theorem taskNoticeOf_eq_some {d : Dependency} {n : Raised} (h : s.taskNoticeOf d = some n) :
    ∃ e p c replacements, d = .project e ∧ e.buildsProducer = true ∧ s.Selects e p c ∧
      c.consumptionDeprecation = some replacements ∧ n = ⟨p.reporter, .consumption c.name replacements⟩ := by
  cases d with
  | module m => cases h
  | project e =>
      simp only [taskNoticeOf, Option.ite_none_right_eq_some] at h
      obtain ⟨hbuilds, hnotice⟩ := h
      cases hresult : (s.select e).result with
      | error x =>
          rw [(select_eq_error.1 hresult).noticeOf_eq] at hnotice
          cases hnotice
      | ok c =>
          obtain ⟨p, hsel⟩ := exists_selects_iff.2 hresult
          rw [hsel.noticeOf_eq] at hnotice
          obtain ⟨replacements, hdeprecated, rfl⟩ := Option.map_eq_some_iff.1 hnotice
          exact ⟨e, p, c, replacements, rfl, hbuilds, hsel, hdeprecated, rfl⟩

/-- It does so if it builds its producer and its target is deprecated. -/
theorem isSome_taskNoticeOf_iff {e : Edge} :
    (s.taskNoticeOf (.project e)).isSome = true ↔
      e.buildsProducer = true ∧ ∃ p c, s.Selects e p c ∧ c.consumptionDeprecation.isSome = true := by
  constructor
  · intro h
    obtain ⟨n, hn⟩ := Option.isSome_iff_exists.1 h
    obtain ⟨_, p, c, _, he, hbuilds, hsel, hdeprecated, _⟩ := taskNoticeOf_eq_some hn
    cases he
    exact ⟨hbuilds, p, c, hsel, Option.isSome_of_mem hdeprecated⟩
  · rintro ⟨hbuilds, p, c, hsel, hdeprecated⟩
    rw [taskNoticeOf, if_pos hbuilds, hsel.noticeOf_eq]
    simpa using hdeprecated

theorem notices_edgeNodes (s : Store) (e : Edge) :
    (s.edgeNodes e).notices = (s.taskNoticeOf (.project e)).toList := by
  unfold edgeNodes
  split
  · rename_i hbuilds
    rw [taskNoticeOf, if_pos hbuilds, ← notices_select]
    cases hproducer : s.producer e with
    | error x => simp [select, hproducer, Reporting.ofExcept, Reporting.fail]
    | ok p =>
        rw [Reporting.ofExcept, Reporting.ok_bind, Reporting.after_nil]
        exact Reporting.notices_bind fun c => (Reporting.notices_bind fun _ => rfl).trans rfl
  · rename_i hbuilds
    rw [taskNoticeOf, if_neg hbuilds]
    rfl

/-- What nodes raise when they are worked off. -/
def due (s : Store) (nodes : List BuildNode) : List Raised := nodes.flatMap fun n => (s.bring n).notices

@[simp] theorem due_nil (s : Store) : s.due [] = [] := rfl

@[simp] theorem due_cons (s : Store) (n : BuildNode) (nodes : List BuildNode) :
    s.due (n :: nodes) = (s.bring n).notices ++ s.due nodes := rfl

@[simp] theorem due_append (s : Store) (nodes nodes' : List BuildNode) :
    s.due (nodes ++ nodes') = s.due nodes ++ s.due nodes' := List.flatMap_append

/-- Nothing but task dependencies raises notices. -/
theorem notices_bring_eq_nil {n : BuildNode} (h : ∀ d, n ≠ .dependency d) : (s.bring n).notices = [] := by
  cases n with
  | task t => rfl
  | artifact a => rfl
  | configuration id c => exact (Reporting.notices_bind fun _ => rfl).trans rfl
  | dependency d => exact absurd rfl (h d)

theorem due_eq_nil {nodes : List BuildNode} (h : ∀ n ∈ nodes, ∀ d, n ≠ .dependency d) : s.due nodes = [] :=
  List.flatMap_eq_nil_iff.2 fun n hn => notices_bring_eq_nil (h n hn)

theorem due_edgeSeeds (s : Store) (es : List Edge) :
    s.due (edgeSeeds es) = es.filterMap fun e => s.taskNoticeOf (.project e) := by
  induction es with
  | nil => rfl
  | cons e es ih =>
      rw [edgeSeeds, List.map_cons, due_cons, bring_edge, notices_edgeNodes, ← edgeSeeds, ih]
      cases hnotice : s.taskNoticeOf (.project e) <;> simp [hnotice]

/-- Of what a configuration needs, the edges raise notices. -/
theorem due_edges (s : Store) (ds : List Dependency) :
    s.due (edgeSeeds (ds.filterMap Dependency.edge?)) = ds.filterMap s.taskNoticeOf := by
  rw [due_edgeSeeds, List.filterMap_filterMap]
  refine List.filterMap_congr fun d _ => ?_
  cases d <;> rfl

theorem bring_configuration_eq_ok {id : ProjectId} {c : Configuration} {brought : List BuildNode}
    (h : (s.bring (.configuration id c)).result = .ok brought) :
    ∃ p, s.project? id = some p ∧ p.container.allDependencies c = .ok (s.needsOf (id, c)) ∧
      brought = edgeSeeds ((s.needsOf (id, c)).filterMap Dependency.edge?) := by
  cases hp : s.project? id with
  | none => simp [bring, edgesOf, hp, Reporting.ofExcept] at h
  | some p =>
      rw [bring_configuration hp] at h
      obtain ⟨ds, hds, rfl⟩ := except_map_eq_ok.1 h
      have hneeds : s.needsOf (id, c) = ds := by simp only [needsOf, hp, hds]
      exact ⟨p, rfl, by rw [hneeds, hds], by rw [hneeds]⟩

/-! ### The account of the walk -/

/-- The account when `seen` is dealt with, `waiting` is still to come, and the configurations `worked` were worked
off. -/
structure Tally (s : Store) (es : List Edge) (seen waiting : List BuildNode) (dealt : Dealt) (raised : List Raised)
    (worked : List (ProjectId × Configuration)) : Prop extends Survey s (edgeSeeds es) seen waiting dealt where
  distinct : (worked.map key).Nodup
  recognised : ∀ id c, dealt.has (.configuration id c) = true ↔ key (id, c) ∈ worked.map key
  worked_seen : ∀ id c, (id, c) ∈ worked → .configuration id c ∈ seen
  covered : ∀ id c, .configuration id c ∈ seen → key (id, c) ∈ worked.map key
  balance : raised ++ s.due waiting =
    s.due (edgeSeeds es) ++ worked.flatMap fun k => (s.needsOf k).filterMap s.taskNoticeOf

namespace Tally

theorem empty (s : Store) (es : List Edge) : Tally s es [] (edgeSeeds es) .empty [] [] where
  toSurvey := Survey.empty s (edgeSeeds es)
  distinct := List.nodup_nil
  recognised := by simp [Dealt.has, Dealt.empty]
  worked_seen := by simp
  covered := by simp
  balance := by simp

theorem pass {n : BuildNode} (h : Tally s es seen (n :: waiting) dealt raised worked) (hknown : dealt.has n = true) :
    Tally s es (seen ++ [n]) waiting dealt raised worked where
  toSurvey := h.toSurvey.pass hknown
  distinct := h.distinct
  recognised := h.recognised
  worked_seen := fun id c hk => List.mem_append_left _ (h.worked_seen id c hk)
  covered := by
    intro id c hc
    rcases List.mem_append.1 hc with hc | hc
    · exact h.covered id c hc
    · rw [← List.mem_singleton.1 hc] at hknown
      exact (h.recognised id c).1 hknown
  balance := by
    have hquiet : (s.bring n).notices = [] := by
      refine notices_bring_eq_nil ?_
      rintro d rfl
      cases hknown
    simpa [hquiet] using h.balance

/-- A configuration puts what its needs raise to the account. -/
theorem workConfiguration (hu : s.Unambiguous (edgeSeeds es)) {id : ProjectId} {c : Configuration}
    {brought : List BuildNode} (h : Tally s es seen (.configuration id c :: waiting) dealt raised worked)
    (hnew : dealt.has (.configuration id c) = false) (hbring : (s.bring (.configuration id c)).result = .ok brought) :
    Tally s es (seen ++ [.configuration id c]) (waiting ++ brought) (dealt.add (.configuration id c)) raised
      (worked ++ [(id, c)]) where
  toSurvey := h.toSurvey.work hu hbring
  distinct := by
    have hfresh : key (id, c) ∉ worked.map key := fun hk => by
      rw [(h.recognised id c).2 hk] at hnew
      cases hnew
    rw [List.map_append, List.nodup_append]
    refine ⟨h.distinct, List.nodup_singleton _, ?_⟩
    rintro k hk k' hk' rfl
    rw [List.mem_singleton.1 hk'] at hk
    exact hfresh hk
  recognised := by
    intro id' c'
    rw [Dealt.has_add_configuration, h.recognised id' c', List.map_append, List.mem_append, List.map_singleton,
      List.mem_singleton, eq_comm]
  worked_seen := by
    intro id' c' hk
    rcases List.mem_append.1 hk with hk | hk
    · exact List.mem_append_left _ (h.worked_seen id' c' hk)
    · cases List.mem_singleton.1 hk
      exact List.mem_append_right _ List.mem_cons_self
  covered := by
    intro id' c' hc
    rw [List.map_append, List.mem_append]
    rcases List.mem_append.1 hc with hc | hc
    · exact Or.inl (h.covered id' c' hc)
    · cases List.mem_singleton.1 hc
      exact Or.inr List.mem_cons_self
  balance := by
    obtain ⟨_, _, _, rfl⟩ := bring_configuration_eq_ok hbring
    have hquiet : (s.bring (.configuration id c)).notices = [] := notices_bring_eq_nil fun d => by simp
    have hbalance := h.balance
    rw [due_cons, hquiet, List.nil_append] at hbalance
    rw [due_append, due_edges, ← List.append_assoc, hbalance]
    simp

/-- Any other node only raises what was due. -/
theorem workOther (hu : s.Unambiguous (edgeSeeds es)) {n : BuildNode} {brought : List BuildNode}
    (h : Tally s es seen (n :: waiting) dealt raised worked) (hn : ∀ id c, n ≠ .configuration id c)
    (hbring : (s.bring n).result = .ok brought) :
    Tally s es (seen ++ [n]) (waiting ++ brought) (dealt.add n) (raised ++ (s.bring n).notices) worked where
  toSurvey := h.toSurvey.work hu hbring
  distinct := h.distinct
  recognised := by
    intro id c
    rw [Dealt.has_configuration_add hn, h.recognised id c]
  worked_seen := fun id c hk => List.mem_append_left _ (h.worked_seen id c hk)
  covered := by
    intro id c hc
    rcases List.mem_append.1 hc with hc | hc
    · exact h.covered id c hc
    · exact absurd (List.mem_singleton.1 hc).symm (hn id c)
  balance := by
    -- All task dependencies that come up are those of edges, and these bring no further ones.
    have hquiet : s.due brought = [] := by
      refine due_eq_nil ?_
      intro m hm d hd
      subst hd
      have hexplained := explained (h.brought n (by simp))
      cases n with
      | configuration id c => exact absurd rfl (hn id c)
      | task t =>
          cases hbring
          cases hm
      | artifact a =>
          cases hbring
          simp at hm
      | dependency d =>
          obtain ⟨x, rfl, _⟩ := hexplained
          rw [bring_edge] at hbring
          rcases edgeNodes_eq_ok hbring with rfl | ⟨c, artifacts, rfl, _⟩
          · cases hm
          · simp at hm
    have hbalance := h.balance
    rw [due_cons] at hbalance
    rw [due_append, hquiet, List.append_nil, List.append_assoc, hbalance]

theorem keepsAccount (hu : s.Unambiguous (edgeSeeds es)) :
    KeepsAccount s.taskStep fun waiting dealt raised => ∃ seen worked, Tally s es seen waiting dealt raised worked := by
  rintro n queue added dealt dealt' notices raised ⟨seen, worked, h⟩ hstep
  have hnotices : notices = if dealt.has n then [] else (s.bring n).notices := by
    rw [← s.notices_taskStep dealt n, hstep]
  rcases taskStep_eq_ok (congrArg Reporting.result hstep) with ⟨hknown, rfl, rfl⟩ | ⟨hnew, hbring, rfl⟩
  · rw [hnotices, if_pos hknown, List.append_nil, List.append_nil]
    exact ⟨_, worked, h.pass hknown⟩
  · rw [hnotices, hnew]
    by_cases hn : ∃ id c, n = .configuration id c
    · obtain ⟨id, c, rfl⟩ := hn
      have hquiet : (s.bring (.configuration id c)).notices = [] := notices_bring_eq_nil fun d => by simp
      have hworked := h.workConfiguration hu hnew hbring
      rw [hquiet]
      simp only [Bool.false_eq_true, if_false, List.append_nil]
      exact ⟨_, _, hworked⟩
    · exact ⟨_, worked, h.workOther hu (fun id c hc => hn ⟨id, c, hc⟩) hbring⟩

end Tally

/-- What a query has raised when it ends well: the notices of its own edges, then those of the needs of each
configuration that it has reached. -/
theorem notices_of_tasks (hu : s.Unambiguous (edgeSeeds es)) {ts : List TaskPath}
    (h : (s.tasks (edgeSeeds es)).result = .ok ts) :
    ∃ worked : List (ProjectId × Configuration), (worked.map key).Nodup ∧
      (∀ id c, (id, c) ∈ worked ↔ ∃ x p, s.Reach es x ∧ x.producer = id ∧ s.Selects x p c) ∧
      (∀ k ∈ worked, ∃ p, s.project? k.1 = some p ∧ p.container.allDependencies k.2 = .ok (s.needsOf k)) ∧
      (s.tasks (edgeSeeds es)).notices = (es.filterMap fun e => s.taskNoticeOf (.project e)) ++
        worked.flatMap fun k => (s.needsOf k).filterMap s.taskNoticeOf := by
  obtain ⟨hbrings, _⟩ := tasks_eq_ok hu h
  obtain ⟨outcome, hdrains, htasks⟩ := s.tasks_drains (edgeSeeds es)
  rw [htasks] at h ⊢
  obtain ⟨dealt, hdealt, _⟩ := except_map_eq_ok.1 h
  obtain ⟨seen, worked, htally⟩ :=
    hdrains.ok_account (Tally.keepsAccount hu) [] ⟨[], [], Tally.empty s es⟩ hdealt
  have hbrought : ∀ id c, (id, c) ∈ worked → Brought s (edgeSeeds es) (.configuration id c) := fun id c hk =>
    htally.brought _ (List.mem_append_left _ (htally.worked_seen id c hk))
  refine ⟨worked, htally.distinct, fun id c => ⟨fun hk => ?_, ?_⟩, fun ⟨id, c⟩ hk => ?_, ?_⟩
  · obtain ⟨x, p, _, hreach, hid, hsel, _⟩ := explained (hbrought id c hk)
    exact ⟨x, p, hreach, hid, hsel⟩
  · rintro ⟨x, p, hreach, rfl, hsel⟩
    -- The edge did not fail, so its configuration has come up and was worked off, itself or under its key.
    obtain ⟨nodes, hnodes⟩ := hbrings _ hreach.brought
    rw [bring_edge] at hnodes
    obtain ⟨_, _, members, hsel', hmembers, _⟩ := (edgeNodes_of_builds hreach.builds).1 hnodes
    obtain ⟨rfl, rfl⟩ := hsel.unique hsel'
    have hcome : Brought s (edgeSeeds es) (.configuration x.producer c) :=
      .step hreach.brought (hreach.brings hsel hmembers) List.mem_cons_self
    obtain ⟨⟨id', c'⟩, hk, hkey⟩ := List.mem_map.1 (htally.covered _ _ (htally.mem_seen hcome))
    obtain ⟨rfl, rfl⟩ := hu _ _ _ _ (hbrought id' c' hk) hcome hkey
    exact hk
  · obtain ⟨nodes, hnodes⟩ := hbrings _ (hbrought id c hk)
    obtain ⟨p, hp, hneeds, _⟩ := bring_configuration_eq_ok hnodes
    exact ⟨p, hp, hneeds⟩
  · have hbalance := htally.balance
    rwa [due_nil, List.append_nil, List.nil_append, due_edgeSeeds] at hbalance

/-- Task queries do not depend on what reporters were handed. -/
theorem dependencyTasks_deliverAll (s : Store) (raised : List Raised) (d : TaskDependency) :
    (s.deliverAll raised).1.dependencyTasks d = s.dependencyTasks d := by
  have hprojects := s.projects_deliverAll raised
  generalize (s.deliverAll raised).1 = after at hprojects
  obtain ⟨projects, reporters⟩ := after
  cases hprojects
  exact dependencyTasks_withReporters reporters s d

theorem buildDependencies_eq {e : Edge} {p : Project} (hp : s.project? e.producer = some p) :
    s.buildDependencies e = ⟨[⟨p.reporter, .buildDependencies⟩], .ok (.ofEdge e)⟩ := by
  rw [buildDependencies, producer_eq_ok.2 hp]
  rfl

end Store

/-- To make the task dependency of an edge looks nothing up and hands nothing to a reporter. -/
theorem Session.store_addEdgeTasks (s : Session) (edgeName name : String) :
    (addEdgeTasks edgeName name false s).2.store = s.store := by
  rw [addEdgeTasks, bind_apply, edge, named_apply]
  cases s.edges.get? edgeName <;> rfl

namespace Build

variable {b : Build} {e x : Edge}

theorem Reachable.reporter_eq (hb : b.Reachable) (hx : x.Into b) {p : Project}
    (hp : b.store.project? x.producer = some p) : p.reporter = b.tree.reporter :=
  hb.oneReporter x.path x.producer p hx hp

/-- What edges into the build raise is about deprecated targets, and goes to the reporter of the tree. -/
theorem Reachable.taskNoticeOf_eq (hb : b.Reachable) (hx : x.Into b) {n : Raised}
    (hn : b.store.taskNoticeOf (.project x) = some n) :
    n.reporter = b.tree.reporter ∧ ∃ name replacements, n.notice = .consumption name replacements := by
  obtain ⟨_, p, c, replacements, hxy, _, hsel, _, rfl⟩ := Store.taskNoticeOf_eq_some hn
  cases hxy
  exact ⟨hb.reporter_eq hx (Store.selects_iff.1 hsel).1, c.name, replacements, rfl⟩

/-- What is needed by a configuration that was reached leads into the build. -/
theorem SelfContained.into_of_mem_needsOf (hself : b.SelfContained) (he : e.Into b) (hx : b.store.Reach [e] x)
    {p : Project} {c : Configuration} (hsel : b.store.Selects x p c)
    (hneeds : p.container.allDependencies c = .ok (b.store.needsOf (x.producer, c))) {y : Edge}
    (hy : .project y ∈ b.store.needsOf (x.producer, c)) : y.Into b := by
  have hxInto : x.Into b := hself.into_of_reach (fun e' he' => List.mem_singleton.1 he' ▸ he) hx
  rw [← Store.below_eq hsel hneeds] at hy
  exact hself.into_of_mem_below hxInto hy

/-- The notices of a task query in a self-contained build: that of the edge itself, and for each configuration that
is reached, once for its owner and name, those of the edges that it needs. They are about deprecated targets alone,
and go to the reporter of the tree. To ask again gives the same again. To have asked for the tasks in the deprecated
way raises one notice more, at once; to make a task dependency raises none. -/
theorem task_notices (hb : b.Reachable) (hself : b.SelfContained) (he : e.Into b) :
    (∀ ts, (b.store.dependencyTasks (.ofEdge e)).result = .ok ts →
      ∃ worked : List (ProjectId × Configuration), (worked.map Store.key).Nodup ∧
        (∀ id c, (id, c) ∈ worked ↔ ∃ x p, b.store.Reach [e] x ∧ x.producer = id ∧ b.store.Selects x p c) ∧
        (∀ k ∈ worked, ∃ p, b.store.project? k.1 = some p ∧
          p.container.allDependencies k.2 = .ok (b.store.needsOf k)) ∧
        (b.store.dependencyTasks (.ofEdge e)).notices = (b.store.taskNoticeOf (.project e)).toList ++
          worked.flatMap (fun k => (b.store.needsOf k).filterMap b.store.taskNoticeOf) ∧
        (b.store.dependencyTasks (.ofEdge e)).notices.length =
          (if (b.store.taskNoticeOf (.project e)).isSome then 1 else 0) +
            (worked.map fun k => (b.store.needsOf k).countP fun d => (b.store.taskNoticeOf d).isSome).sum ∧
        ∀ n ∈ (b.store.dependencyTasks (.ofEdge e)).notices, n.reporter = b.tree.reporter ∧
          ∃ name replacements, n.notice = .consumption name replacements) ∧
    (∀ x, (b.store.taskNoticeOf (.project x)).isSome = true ↔
      x.buildsProducer = true ∧ ∃ p c, b.store.Selects x p c ∧ c.consumptionDeprecation.isSome = true) ∧
    (∀ raised d, (b.store.deliverAll raised).1.dependencyTasks d = b.store.dependencyTasks d) ∧
    b.store.buildDependencies e = ⟨[⟨b.tree.reporter, .buildDependencies⟩], .ok (.ofEdge e)⟩ ∧
    ∀ (session : Session) (edgeName name : String),
      (Session.addEdgeTasks edgeName name false session).2.store = session.store := by
  refine ⟨fun ts hts => ?_, fun x => Store.isSome_taskNoticeOf_iff,
    fun raised d => b.store.dependencyTasks_deliverAll raised d, ?_, Session.store_addEdgeTasks⟩
  · obtain ⟨worked, hdistinct, hreached, hneeds, hnotices⟩ :=
      Store.notices_of_tasks (hb.unambiguous hself he) hts
    have hexact : (b.store.dependencyTasks (.ofEdge e)).notices = (b.store.taskNoticeOf (.project e)).toList ++
        worked.flatMap fun k => (b.store.needsOf k).filterMap b.store.taskNoticeOf := by
      refine hnotices.trans (congrArg (· ++ _) ?_)
      cases hnotice : b.store.taskNoticeOf (.project e) <;> simp [hnotice]
    refine ⟨worked, hdistinct, hreached, hneeds, hexact, ?_, fun n hn => ?_⟩
    · rw [hexact, List.length_append, List.length_flatMap, Option.length_toList]
      simp only [List.length_filterMap_eq_countP]
    · -- Each notice is that of the edge itself, or of one that a reached configuration needs.
      rw [hexact] at hn
      rcases List.mem_append.1 hn with hn | hn
      · exact hb.taskNoticeOf_eq he (Option.mem_toList.1 hn)
      · obtain ⟨⟨id, c⟩, hk, hneeded⟩ := List.mem_flatMap.1 hn
        obtain ⟨d, hd, hnotice⟩ := List.mem_filterMap.1 hneeded
        obtain ⟨y, _, _, _, rfl, _⟩ := Store.taskNoticeOf_eq_some hnotice
        obtain ⟨x, p, hx, rfl, hsel⟩ := (hreached id c).1 hk
        obtain ⟨q, hq, hall⟩ := hneeds (x.producer, c) hk
        rw [(Store.selects_iff.1 hsel).1] at hq
        cases hq
        exact hb.taskNoticeOf_eq (hself.into_of_mem_needsOf he hx hsel hall hd) hnotice
  · obtain ⟨p, hp, _⟩ := hb.coherent e.path e.producer he
    rw [Store.buildDependencies_eq hp, hb.reporter_eq he hp]

/-- The offer of the library is deprecated. The application and its tool need it, and the tool needs it once more
for its files alone; the library needs the application. -/
def reliedOn : Build :=
  let b := ((start .empty "shop" ⟨0⟩).addProject ⟨["lib"]⟩).1
  let b := (b.addProject ⟨["app"]⟩).1
  let b := (b.addProject ⟨["tool"]⟩).1
  let b := b.declare ⟨1⟩ { jarOf "lib" [.project (offerOf 2 "app")] with consumptionDeprecation := some ["api"] }
  let b := b.declare ⟨2⟩ (jarOf "app" [.project (offerOf 1 "lib"), .project (offerOf 3 "tool")])
  b.declare ⟨3⟩ (jarOf "tool" [.project (offerOf 1 "lib"), .project { offerOf 1 "lib" with buildsProducer := false }])

theorem reliedOn_reachable : reliedOn.Reachable := by
  have hprojects := (((Reachable.start .empty "shop" ⟨0⟩).addProject ⟨["lib"]⟩).addProject ⟨["app"]⟩).addProject
    ⟨["tool"]⟩
  exact ((hprojects.declare _ _).declare _ _).declare _ _

/-- Three configurations are reached, and two of them need the library for their tasks. -/
theorem task_notices_reliedOn :
    let query := reliedOn.store.dependencyTasks (.ofEdge (offerOf 2 "app"))
    let notice : Raised := ⟨⟨0⟩, .consumption "default" ["api"]⟩
    reliedOn.SelfContained ∧ (offerOf 2 "app").Into reliedOn ∧
    (∃ ts, query.result = .ok ts ∧ ∃ worked : List (ProjectId × Configuration), (worked.map Store.key).Nodup ∧
      (∀ id c, (id, c) ∈ worked ↔
        ∃ x p, reliedOn.store.Reach [offerOf 2 "app"] x ∧ x.producer = id ∧ reliedOn.store.Selects x p c) ∧
      query.notices = worked.flatMap (fun k => (reliedOn.store.needsOf k).filterMap reliedOn.store.taskNoticeOf) ∧
      query.notices = [notice, notice]) ∧
    (reliedOn.store.deliverAll query.notices).1.dependencyTasks (.ofEdge (offerOf 2 "app")) = query ∧
    reliedOn.store.buildDependencies (offerOf 2 "app") =
      ⟨[⟨⟨0⟩, .buildDependencies⟩], .ok (.ofEdge (offerOf 2 "app"))⟩ := by
  intro query notice
  have hself : reliedOn.SelfContained := by decide +kernel
  have hinto : (offerOf 2 "app").Into reliedOn := by decide +kernel
  obtain ⟨hquery, _, hagain, hdirect, _⟩ := task_notices reliedOn_reachable hself hinto
  have hwalk : query.result.toOption.map id =
      some [⟨⟨["app"]⟩, "jar"⟩, ⟨⟨["lib"]⟩, "jar"⟩, ⟨⟨["tool"]⟩, "jar"⟩] := by
    decide +kernel
  obtain ⟨ts, hok, _⟩ := exists_eq_ok hwalk
  obtain ⟨worked, hdistinct, hreached, _, hnotices, _⟩ := hquery ts hok
  have hown : reliedOn.store.taskNoticeOf (.project (offerOf 2 "app")) = none := by decide +kernel
  rw [hown] at hnotices
  have hreporter : reliedOn.tree.reporter = ⟨0⟩ := by decide +kernel
  rw [hreporter] at hdirect
  exact ⟨hself, hinto, ⟨ts, hok, worked, hdistinct, hreached, hnotices, by decide +kernel⟩, hagain _ _, hdirect⟩

end Build

end ProjectGraph
