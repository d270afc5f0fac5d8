import ProjectGraph.Proofs.Worklist
import ProjectGraph.TaskSet

/-!
The walk over build nodes, step by step. `bring` says what a node brings if it is worked off, and `Dealt` what
the walk knows of the nodes it has worked off: artifacts and configurations are recognised when they come up
again, tasks and task dependencies are not. `workOff_drains` says that the walk is the loop of a waiting list
with these two.
-/

namespace ProjectGraph

namespace Store

/-- What was worked off. -/
structure Dealt where
  tasks : Std.TreeSet TaskPath
  artifacts : Std.TreeSet Artifact
  configurations : Std.TreeSet (ProjectPath × String) compareKeys

namespace Dealt

def empty : Dealt := ⟨∅, ∅, ∅⟩

/-- Whether a node is recognised. -/
def has (d : Dealt) : BuildNode → Bool
  | .artifact a => d.artifacts.contains a
  | .configuration p c => d.configurations.contains (key (p, c))
  | _ => false

def add (d : Dealt) : BuildNode → Dealt
  | .task t => { d with tasks := d.tasks.insert t }
  | .artifact a => { d with artifacts := d.artifacts.insert a }
  | .configuration p c => { d with configurations := d.configurations.insert (key (p, c)) }
  | .dependency _ => d

/-- A configuration is recognised by owner and name. -/
theorem has_add_configuration {d : Dealt} {id id' : ProjectId} {c c' : Configuration} :
    (d.add (.configuration id c)).has (.configuration id' c') = true ↔
      d.has (.configuration id' c') = true ∨ key (id, c) = key (id', c') := by
  simp only [has, add, Std.TreeSet.contains_insert, Bool.or_eq_true, beq_iff_eq, Std.LawfulEqCmp.compare_eq_iff_eq]
  rw [or_comm]

/-- It is never recognised for anything but a configuration. -/
theorem has_configuration_add {d : Dealt} {n : BuildNode} (h : ∀ id c, n ≠ .configuration id c) (id : ProjectId)
    (c : Configuration) : (d.add n).has (.configuration id c) = d.has (.configuration id c) := by
  cases n with
  | configuration id' c' => exact absurd rfl (h id' c')
  | task t => rfl
  | artifact a => rfl
  | dependency d => rfl

end Dealt

def Progress.dealt {s : Store} (done : Progress s) : Dealt := ⟨done.tasks, done.artifacts, done.configurations⟩

/-- What a node brings. -/
def bring (s : Store) : BuildNode → Reporting (List BuildNode)
  | .task _ => pure []
  | .artifact a => pure (a.builtBy.map .task)
  | .configuration p c => do
    let es ← .ofExcept (s.edgesOf p c)
    return es.map fun e => .dependency (.ofEdge e)
  | .dependency d =>
    let (nodes, outcome) := s.visit d
    do
      outcome
      return nodes

theorem bring_edge (s : Store) (e : Edge) : s.bring (.dependency (.ofEdge e)) = s.edgeNodes e := by
  rw [bring, visit]
  generalize s.edgeNodes e = found
  obtain ⟨notices, result⟩ := found
  cases result with
  | error failure => rfl
  | ok nodes => simp [listAll, Reporting.after]

/-- Works off one node of the waiting list. -/
def taskStep (s : Store) (dealt : Dealt) (n : BuildNode) : Reporting (Dealt × List BuildNode) :=
  if dealt.has n then pure (dealt, [])
  else do
    let nodes ← s.bring n
    return (dealt.add n, nodes)

variable {s : Store}

theorem taskStep_known {dealt : Dealt} {n : BuildNode} (h : dealt.has n = true) :
    s.taskStep dealt n = ⟨[], .ok (dealt, [])⟩ := by
  rw [taskStep, if_pos h]
  rfl

theorem taskStep_new {dealt : Dealt} {n : BuildNode} (h : dealt.has n = false) {notices : List Raised}
    {nodes : List BuildNode} (hn : s.bring n = ⟨notices, .ok nodes⟩) :
    s.taskStep dealt n = ⟨notices, .ok (dealt.add n, nodes)⟩ := by
  rw [taskStep, if_neg (Bool.eq_false_iff.1 h), hn]
  simp [Reporting.after]

theorem taskStep_fails {dealt : Dealt} {n : BuildNode} (h : dealt.has n = false) {notices : List Raised}
    {x : BuildError} (hn : s.bring n = ⟨notices, .error x⟩) :
    s.taskStep dealt n = ⟨notices, .error x⟩ := by
  rw [taskStep, if_neg (Bool.eq_false_iff.1 h), hn]
  rfl

theorem taskStep_eq_ok {dealt dealt' : Dealt} {n : BuildNode} {nodes : List BuildNode}
    (h : (s.taskStep dealt n).result = .ok (dealt', nodes)) :
    dealt.has n = true ∧ dealt' = dealt ∧ nodes = [] ∨
      dealt.has n = false ∧ (s.bring n).result = .ok nodes ∧ dealt' = dealt.add n := by
  unfold taskStep at h
  split at h
  · rename_i hknown
    cases h
    exact Or.inl ⟨hknown, rfl, rfl⟩
  · rename_i hnew
    obtain ⟨_, hnodes, h⟩ := Reporting.bind_eq_ok.1 h
    cases h
    exact Or.inr ⟨Bool.eq_false_iff.2 hnew, hnodes, rfl⟩

theorem taskStep_eq_error {dealt : Dealt} {n : BuildNode} {x : BuildError}
    (h : (s.taskStep dealt n).result = .error x) : (s.bring n).result = .error x := by
  unfold taskStep at h
  split at h
  · cases h
  · generalize s.bring n = brought at h ⊢
    obtain ⟨notices, result⟩ := brought
    cases result with
    | error y =>
        cases h
        rfl
    | ok nodes => cases h

/-- A node that is recognised raises nothing. -/
theorem notices_taskStep (s : Store) (dealt : Dealt) (n : BuildNode) :
    (s.taskStep dealt n).notices = if dealt.has n then [] else (s.bring n).notices := by
  unfold taskStep
  split
  · rfl
  · exact Reporting.notices_bind fun _ => rfl

/-! ### The loop -/

/-- What is raised on the way is kept aside, the last notice in front. -/
theorem workOff_drains (s : Store) (base : List (ProjectId × Configuration))
    (closed : ∀ c ∈ s.configurations, c ∈ base) (queue : Queue BuildNode)
    (within : ∀ n ∈ queue.toList, ∀ c ∈ n.configurations, c ∈ base) (done : Progress s) :
    ∃ outcome : Reporting Dealt, Drains s.taskStep queue.toList done.dealt outcome ∧
      s.workOff base closed queue within done =
        ⟨done.raised.reverse ++ outcome.notices, outcome.result.map Dealt.tasks⟩ := by
  fun_induction workOff s base closed queue within done with
  | case1 queue within done hnext =>
      rw [Queue.next?_eq_none.1 hnext]
      refine ⟨_, .done _, ?_⟩
      simp [Progress.dealt, Except.map]
  | case2 queue within done t rest hnext ih =>
      rw [Queue.toList_of_next? hnext]
      obtain ⟨outcome, hdrains, hresult⟩ := ih
      refine ⟨outcome, .quietly (taskStep_new (n := .task t) rfl rfl) ?_, hresult⟩
      rwa [List.append_nil]
  | case3 queue within done a rest hnext hknown ih =>
      rw [Queue.toList_of_next? hnext]
      obtain ⟨outcome, hdrains, hresult⟩ := ih
      refine ⟨outcome, .quietly (taskStep_known (n := .artifact a) hknown) ?_, hresult⟩
      rwa [List.append_nil]
  | case4 queue within done a rest hnext hnew ih =>
      rw [Queue.toList_of_next? hnext]
      have hunknown : done.dealt.has (.artifact a) = false := Bool.eq_false_iff.2 hnew
      obtain ⟨outcome, hdrains, hresult⟩ := ih
      rw [Queue.toList_append] at hdrains
      exact ⟨outcome, .quietly (taskStep_new hunknown rfl) hdrains, hresult⟩
  | case5 queue within done p c rest hnext hknown ih =>
      rw [Queue.toList_of_next? hnext]
      obtain ⟨outcome, hdrains, hresult⟩ := ih
      refine ⟨outcome, .quietly (taskStep_known (n := .configuration p c) hknown) ?_, hresult⟩
      rwa [List.append_nil]
  | case6 queue within done p c rest hnext hnew x hfound =>
      rw [Queue.toList_of_next? hnext]
      have hunknown : done.dealt.has (.configuration p c) = false := Bool.eq_false_iff.2 hnew
      have hbring : s.bring (.configuration p c) = ⟨[], .error x⟩ := by
        simp [bring, hfound, Reporting.ofExcept]
      refine ⟨_, .fails (taskStep_fails hunknown hbring), ?_⟩
      simp [Except.map]
  | case7 queue within done p c rest hnext hnew es hfound ih =>
      rw [Queue.toList_of_next? hnext]
      have hunknown : done.dealt.has (.configuration p c) = false := Bool.eq_false_iff.2 hnew
      have hbring : s.bring (.configuration p c) = ⟨[], .ok (es.map fun e => .dependency (.ofEdge e))⟩ := by
        simp [bring, hfound, Reporting.ofExcept]
      obtain ⟨outcome, hdrains, hresult⟩ := ih
      rw [Queue.toList_append] at hdrains
      exact ⟨outcome, .quietly (taskStep_new hunknown hbring) hdrains, hresult⟩
  | case8 queue within done d rest hnext listed answers _ nodes notices x hlisted =>
      rw [Queue.toList_of_next? hnext]
      have hbring : s.bring (.dependency d) = ⟨notices, .error x⟩ := by
        rw [bring, ← listed.property, hlisted]
        rfl
      exact ⟨_, .fails (taskStep_fails rfl hbring), rfl⟩
  | case9 queue within done d rest hnext listed answers _ nodes notices hlisted ih =>
      rw [Queue.toList_of_next? hnext]
      have hbring : s.bring (.dependency d) = ⟨notices, .ok nodes⟩ := by
        rw [bring, ← listed.property, hlisted]
        simp [Reporting.after]
      obtain ⟨outcome, hdrains, hresult⟩ := ih
      rw [Queue.toList_append] at hdrains
      refine ⟨_, .goesOn (taskStep_new rfl hbring) hdrains, ?_⟩
      rw [hresult]
      simp [Reporting.after]

/-- The tasks of nodes are those that the loop has gathered when nothing waits any more. -/
theorem tasks_drains (s : Store) (nodes : List BuildNode) :
    ∃ outcome : Reporting Dealt, Drains s.taskStep nodes .empty outcome ∧
      s.tasks nodes = ⟨outcome.notices, outcome.result.map (·.tasks.toList)⟩ := by
  obtain ⟨outcome, hdrains, hresult⟩ := s.workOff_drains (BuildNode.allConfigurations nodes ++ s.configurations)
    (fun _ h => List.mem_append_right _ h) (.ofList nodes)
    (fun n hn _ hc => by
      rw [Queue.toList_ofList] at hn
      exact List.mem_append_left _ (BuildNode.mem_allConfigurations.2 ⟨n, hn, hc⟩))
    (.start s)
  rw [Queue.toList_ofList] at hdrains
  refine ⟨outcome, hdrains, ?_⟩
  rw [tasks, hresult]
  obtain ⟨notices, result⟩ := outcome
  cases result with
  | error x => rfl
  | ok dealt => simp [Reporting.after, Except.map, Progress.start]

end Store

end ProjectGraph
