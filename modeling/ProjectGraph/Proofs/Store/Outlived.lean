import ProjectGraph.Proofs.Closure.Failures
import ProjectGraph.Proofs.Closure.Taken
import ProjectGraph.Proofs.Dependency.Identity
import ProjectGraph.Proofs.Expansion
import ProjectGraph.Proofs.TaskSet.Derivation
import ProjectGraph.Proofs.TaskSet.Expansions
import ProjectGraph.Proofs.TaskSet.Notices
import ProjectGraph.Session.Operations

/-!
Edges that outlive their producers. An edge does not keep its producer, nor does what other projects declare, so a
project is gone as soon as no tree, no holder and no task dependency keeps it (`project?_of_not_kept`). From then on
whatever needs the producer fails, before it has raised anything or handed anything over, and what does not need it goes
on as before (`Outlives`). Identity, hash, text and copies of an edge have nothing to do with its producer.
-/

namespace ProjectGraph

/-- What is said of an edge whose producer is gone. -/
def Edge.unknown (e : Edge) : BuildError := .unknownProject e.path.render

namespace Store

variable {s : Store} {e : Edge} {transitive : Bool}

/-! ### Looking up -/

theorem producer_of_gone (h : s.project? e.producer = none) : s.producer e = .error e.unknown := by
  simp only [producer, h, Edge.unknown]

theorem ofProducer_of_gone (h : s.project? e.producer = none) (part : Project → String) :
    s.ofProducer e part = .error e.unknown := by
  rw [ofProducer, producer_of_gone h]
  rfl

theorem select_of_gone (h : s.project? e.producer = none) : s.select e = .fail e.unknown :=
  (NotSelected.gone h).select_eq

theorem excluded_of_gone (h : s.project? e.producer = none) (rules : List ExcludeRule) :
    s.excluded rules (.project e) = false := by
  simp only [excluded, h]

theorem resolveFiles_of_gone (h : s.project? e.producer = none) (transitive : Bool) :
    s.resolveFiles e transitive = .fail e.unknown := by
  rw [resolveFiles, producer_of_gone h]
  rfl

theorem buildDependencies_of_gone (h : s.project? e.producer = none) : s.buildDependencies e = .fail e.unknown := by
  rw [buildDependencies, producer_of_gone h]
  rfl

theorem expand_of_gone (h : s.project? e.producer = none) {σ : Type} (r : Recipient σ) (x : σ) :
    r.expand s e x = (x, if r.expands e x then .fail e.unknown else pure ()) := by
  cases hexpands : r.expands e x with
  | false => exact Recipient.expand_of_not_expands hexpands s
  | true =>
      rw [Recipient.expand, if_pos hexpands, select_of_gone h]
      rfl

theorem edgeNodes_of_gone (h : s.project? e.producer = none) :
    s.edgeNodes e = if e.buildsProducer then .fail e.unknown else pure [] := by
  rw [edgeNodes, producer_of_gone h]
  rfl

theorem takeUp_of_gone (h : s.project? e.producer = none) (above : List ExcludeRule) :
    s.takeUp transitive ⟨.project e, above⟩ = .fail e.unknown := by
  simp only [takeUp, select_of_gone h]
  rfl

/-! ### Walks -/

/-- Nothing but modules has been reached. -/
def Unresolved (c : Closure) : Prop := ∀ d ∈ c.dependencies, ∃ m, d = .module m

/-- Taking up a module is no different. -/
theorem quietly_unresolved {c : Closure} {p : Pending} (hp : ∀ e, p.dependency ≠ .project e) :
    Quietly (s.closureStep transitive) Unresolved (c, p) := by
  intro h
  obtain ⟨d, above⟩ := p
  cases d with
  | project e => exact absurd rfl (hp e)
  | module m =>
      constructor
      · rw [notices_closureStep]
        exact ite_self []
      · intro c' added hstep
        rcases closureStep_eq_ok hstep with ⟨_, rfl, _⟩ | ⟨_, _, _, _, rfl⟩
        · exact h
        · intro d hd
          rcases List.mem_append.1 hd with hd | hd
          · exact h d hd
          · exact ⟨m, List.mem_singleton.1 hd⟩

/-- Where no edge has been reached, none is recognised. -/
theorem Unresolved.not_contains {c : Closure} (h : Unresolved c) (e : Edge) :
    c.dependencies.contains (.project e) = false := by
  refine Bool.eq_false_iff.2 fun hcontains => ?_
  obtain ⟨d, hd, hsame⟩ := List.contains_iff_exists_mem_beq.1 hcontains
  obtain ⟨m, rfl⟩ := h d hd
  cases hsame

/-- A closure fails if the first edge that it takes up has lost its producer. -/
theorem closure_of_gone (h : s.project? e.producer = none) {i : Intake} {front back : List (Closure × Pending)}
    {c last : Closure} {above : List ExcludeRule}
    (htakes : s.ClosureTakes i (front ++ (c, ⟨.project e, above⟩) :: back) last)
    (hfirst : ∀ t ∈ front, ∀ x, t.2.dependency ≠ .project x) : s.closure i = .fail e.unknown := by
  refine Takes.eq_of_fails_behind (I := Unresolved) htakes (by simp [Unresolved]) ?_ ?_
  · exact fun t ht => quietly_unresolved (hfirst t ht)
  · intro hunresolved
    have hnew : ¬ c.dependencies.contains (.project e) = true := Bool.eq_false_iff.1 (hunresolved.not_contains e)
    rw [closureStep, if_neg hnew, takeUp_of_gone h]
    rfl

/-- A walk over build nodes fails if the first task dependency that it asks is that of an edge which builds its producer
and has lost it. -/
theorem tasks_of_gone (h : s.project? e.producer = none) (hbuilds : e.buildsProducer = true) {nodes : List BuildNode}
    {front back : List (Dealt × BuildNode)} {dealt : Dealt}
    (htakes : s.TasksTake nodes (front ++ (dealt, .dependency (.ofEdge e)) :: back))
    (hfirst : ∀ t ∈ front, ∀ d, t.2 ≠ .dependency d) : s.tasks nodes = .fail e.unknown := by
  obtain ⟨last, outcome, htakes, htasks⟩ := htakes
  have hfails : outcome = .fail e.unknown := by
    refine htakes.eq_of_fails_behind (I := fun _ => True) trivial ?_ ?_
    · intro t ht _
      refine ⟨?_, fun _ _ _ => trivial⟩
      rw [notices_taskStep, notices_bring_eq_nil (hfirst t ht)]
      exact ite_self []
    · intro _
      refine taskStep_fails rfl ?_
      rw [bring_edge, edgeNodes_of_gone h, if_pos hbuilds]
      rfl
  rw [htasks, hfails]
  rfl

theorem dependencyTasks_of_gone (h : s.project? e.producer = none) :
    s.dependencyTasks (.ofEdge e) = if e.buildsProducer then .fail e.unknown else pure [] := by
  cases hbuilds : e.buildsProducer with
  | false => exact s.dependencyTasks_of_not_builds hbuilds
  | true =>
      obtain ⟨taken, htakes⟩ := s.exists_tasksTake [.dependency (.ofEdge e)]
      obtain ⟨back, rfl⟩ := htakes.first
      have hfirst : s.TasksTake _ ([] ++ (.empty, .dependency (.ofEdge e)) :: back) := htakes
      exact tasks_of_gone h hbuilds hfirst (by simp)

/-! ### What is left of an edge -/

/-- What becomes of an edge without a producer, whatever else the store holds: each failure is that of the missing
producer, without any notice, and leaves what it was to be handed over to as it was. -/
structure Outlives (s : Store) (e : Edge) : Prop where
  producer : s.producer e = .error e.unknown
  group : s.producerGroup e = .error e.unknown
  name : s.producerName e = .error e.unknown
  version : s.producerVersion e = .error e.unknown
  select : s.select e = .fail e.unknown
  resolveFiles : ∀ transitive, s.resolveFiles e transitive = .fail e.unknown
  resolve : s.resolve e = .fail e.unknown
  buildDependencies : s.buildDependencies e = .fail e.unknown
  expand : ∀ {σ : Type} (r : Recipient σ) (x : σ),
    r.expand s e x = (x, if r.expands e x then .fail e.unknown else pure ())
  expandIntake : ∀ i : Intake, s.expand e i = (i, if expands e i then .fail e.unknown else pure ())
  visit : s.visit (.ofEdge e) = ([], if e.buildsProducer then .fail e.unknown else pure ())
  dependencyTasks : s.dependencyTasks (.ofEdge e) = if e.buildsProducer then .fail e.unknown else pure []
  /-- No other edge is taken up before it. -/
  closure : ∀ (i : Intake) (front back : List (Closure × Pending)) (c last : Closure) (above : List ExcludeRule),
    s.ClosureTakes i (front ++ (c, ⟨.project e, above⟩) :: back) last →
    (∀ t ∈ front, ∀ x, t.2.dependency ≠ .project x) → s.closure i = .fail e.unknown
  /-- No other task dependency is asked before it. -/
  tasks : e.buildsProducer = true → ∀ (nodes : List BuildNode) (front back : List (Dealt × BuildNode)) (dealt : Dealt),
    s.TasksTake nodes (front ++ (dealt, .dependency (.ofEdge e)) :: back) →
    (∀ t ∈ front, ∀ d, t.2 ≠ .dependency d) → s.tasks nodes = .fail e.unknown
  excluded : ∀ rules, s.excluded rules (.project e) = false

theorem outlives_of_gone (h : s.project? e.producer = none) : s.Outlives e where
  producer := producer_of_gone h
  group := ofProducer_of_gone h _
  name := ofProducer_of_gone h _
  version := ofProducer_of_gone h _
  select := select_of_gone h
  resolveFiles := resolveFiles_of_gone h
  resolve := resolveFiles_of_gone h true
  buildDependencies := buildDependencies_of_gone h
  expand := expand_of_gone h
  expandIntake i := by
    rw [expand_eq_recipient]
    exact expand_of_gone h Intake.recipient i
  visit := by
    rw [visit, edgeNodes_of_gone h]
    cases e.buildsProducer <;> rfl
  dependencyTasks := dependencyTasks_of_gone h
  closure := fun _ _ _ _ _ _ htakes hfirst => closure_of_gone h htakes hfirst
  tasks := fun hbuilds _ _ _ _ htakes hfirst => tasks_of_gone h hbuilds htakes hfirst
  excluded := excluded_of_gone h

end Store

/-! ### What keeps a producer -/

namespace Session

/-- At the end of an operation a project is gone unless a tree, a holder or a task dependency keeps it. -/
theorem project?_of_not_kept {α : Type} (s : Session) (operation : SessionM α) {id : ProjectId}
    (h : id ∉ (s.run operation).1.kept) : (s.run operation).1.store.project? id = none := by
  have hdropped : (s.run operation).1.store =
      (operation { s with log := [] }).2.store.retain (s.run operation).1.kept := rfl
  rw [hdropped, Store.project?_retain, if_neg h]

end Session

/-- What is declared keeps no project, and neither do edges and snapshots. A producer that nothing keeps is gone at the
end of an operation, and no edge is lost by that. An edge without a producer fails wherever the producer is needed, and
nowhere else. Neither identity nor hash, text or copies of edges depend on where their producers are. -/
theorem edges_outlive_producers :
    (∀ (s : Session) (store : Store) (edges : SortedMap String Edge) (snapshots : SortedMap String Configuration),
      { s with store, edges, snapshots }.kept = s.kept) ∧
    (∀ {α : Type} (s : Session) (operation : SessionM α),
      (s.run operation).1.edges = (operation { s with log := [] }).2.edges ∧
      ∀ e : Edge, e.producer ∉ (s.run operation).1.kept → (s.run operation).1.store.Outlives e) ∧
    (∀ (s : Store) (e : Edge), s.project? e.producer = none → s.Outlives e) ∧
    ∀ (a b : Edge) (id id' : ProjectId),
      ({ a with producer := id } == { b with producer := id' }) = (a == b) ∧
      (∀ ofPath ofName, { a with producer := id }.contentHash ofPath ofName = a.contentHash ofPath ofName) ∧
      { a with producer := id }.render = a.render ∧
      { a with producer := id }.copy = { a.copy with producer := id } := by
  refine ⟨fun _ _ _ _ => rfl, ?_, fun _ _ => Store.outlives_of_gone, ?_⟩
  · intro α s operation
    exact ⟨rfl, fun e h => Store.outlives_of_gone (s.project?_of_not_kept operation h)⟩
  · exact fun a b id id' => ⟨rfl, fun _ _ => rfl, rfl, rfl⟩

namespace Build

/-- A shop whose projects need each other, and an edge to one of them. -/
def furnishedShop : Session :=
  { Session.empty with
    store := shop.store
    trees := SortedMap.empty.insert "shop" shop.tree
    edges := SortedMap.empty.insert "app" (offerOf 2 "app") }

/-- The shop is dropped, and both projects with it. -/
theorem edges_outlive_producers_shop :
    let e := offerOf 2 "app"
    let dropped := (furnishedShop.run (Session.dropTree "shop")).1
    (furnishedShop.store.select e).result.isOk ∧ dropped.edges.get? "app" = some e ∧ e.producer ∉ dropped.kept ∧
      dropped.store.select e = ⟨[], .error (.unknownProject ":app")⟩ ∧
      dropped.store.closure ((Intake.empty true).addDependencies [.project e, .module moduleOfLib]) =
        ⟨[], .error (.unknownProject ":app")⟩ ∧
      dropped.store.tasks [.dependency (.ofEdge e), .task ⟨⟨["app"]⟩, "jar"⟩] =
        ⟨[], .error (.unknownProject ":app")⟩ ∧
      ({ e with producer := ⟨7⟩ } == e) = (e == e) := by
  intro e dropped
  obtain ⟨_, hsessions, _, hidentity⟩ := edges_outlive_producers
  obtain ⟨_, hgone⟩ := hsessions furnishedShop (Session.dropTree "shop")
  have hkept : e.producer ∉ dropped.kept := by decide +kernel
  have houtlives := hgone e hkept
  refine ⟨by decide +kernel, by decide +kernel, hkept, houtlives.select, ?_, ?_, (hidentity e e ⟨7⟩ e.producer).1⟩
  · let i := (Intake.empty true).addDependencies [.project e, .module moduleOfLib]
    obtain ⟨taken, last, htakes⟩ := dropped.store.exists_closureTakes i
    obtain ⟨back, rfl⟩ := Takes.first htakes
    exact houtlives.closure i [] back _ last [] htakes (by simp)
  · obtain ⟨taken, htakes⟩ := dropped.store.exists_tasksTake
      [.dependency (.ofEdge e), .task ⟨⟨["app"]⟩, "jar"⟩]
    obtain ⟨back, rfl⟩ := htakes.first
    exact houtlives.tasks rfl _ [] back _ htakes (by simp)

end Build

end ProjectGraph
