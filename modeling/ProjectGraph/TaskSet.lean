import ProjectGraph.Queue
import ProjectGraph.TaskSet.Answers
import ProjectGraph.TaskSet.Cost
import Std.Data.TreeSet

/-!
The tasks that must run before something can be used. Nodes are worked off in the order in which they come
up. Each task, each artifact and each configuration (by owner and name) counts once; a task dependency is
asked each time it comes up. What an edge brings is taken from the answers that the walk has kept, if its
destination is among them.

The walk ends because each configuration is worked off at most once and brings a fixed amount of work, and
everything else hands on less than it is.
-/

namespace ProjectGraph

namespace Store

/-- What makes a configuration the same for the walk. -/
def key (c : ProjectId × Configuration) : ProjectPath × String := (c.2.owner, c.2.name)

/-- By owner, then by name. -/
def compareKeys : ProjectPath × String → ProjectPath × String → Ordering :=
  compareLex (compareOn Prod.fst) (compareOn Prod.snd)

instance : Std.TransCmp compareKeys :=
  inferInstanceAs (Std.TransCmp (compareLex (compareOn Prod.fst) (compareOn Prod.snd)))

instance : Std.LawfulEqCmp compareKeys where
  eq_of_compare {a b} h := by
    cases a; cases b
    obtain ⟨ho, hn⟩ := Ordering.then_eq_eq.1 h
    cases Std.LawfulEqOrd.eq_of_compare (α := ProjectPath) ho
    cases Std.LawfulEqOrd.eq_of_compare (α := String) hn
    rfl

/-- What the walk has dealt with and found out. -/
structure Progress (s : Store) where
  tasks : Std.TreeSet TaskPath
  artifacts : Std.TreeSet Artifact
  configurations : Std.TreeSet (ProjectPath × String) compareKeys
  answers : NodeAnswers s
  /-- The notices that were raised, the last one in front. -/
  raised : List Raised

def Progress.start (s : Store) : Progress s := ⟨∅, ∅, ∅, ∅, []⟩

/-- Works off nodes in order, until none waits. `base` holds all configurations that can ever wait. -/
def workOff (s : Store) (base : List (ProjectId × Configuration)) (closed : ∀ c ∈ s.configurations, c ∈ base)
    (queue : Queue BuildNode) (within : ∀ n ∈ queue.toList, ∀ c ∈ n.configurations, c ∈ base)
    (done : Progress s) : Reporting (Std.TreeSet TaskPath) :=
  match _next : queue.next? with
  | none => ⟨done.raised.reverse, .ok done.tasks⟩
  | some (.task t, rest) =>
    s.workOff base closed rest (fun n hn => within n (Queue.mem_of_mem_rest _next hn))
      { done with tasks := done.tasks.insert t }
  | some (.artifact a, rest) =>
    if done.artifacts.contains a then
      s.workOff base closed rest (fun n hn => within n (Queue.mem_of_mem_rest _next hn)) done
    else
      s.workOff base closed (rest.append (a.builtBy.map .task))
        (fun n hn => by
          rw [Queue.toList_append] at hn
          rcases List.mem_append.1 hn with hn | hn
          · exact within n (Queue.mem_of_mem_rest _next hn)
          · obtain ⟨t, _, rfl⟩ := List.mem_map.1 hn
            simp [BuildNode.configurations])
        { done with artifacts := done.artifacts.insert a }
  | some (.configuration p c, rest) =>
    if _new : done.configurations.contains (key (p, c)) then
      s.workOff base closed rest (fun n hn => within n (Queue.mem_of_mem_rest _next hn)) done
    else
      match _found : s.edgesOf p c with
      | .error x => ⟨done.raised.reverse, .error x⟩
      | .ok es =>
        s.workOff base closed (rest.append (es.map fun e => .dependency (.ofEdge e)))
          (fun n hn => by
            rw [Queue.toList_append] at hn
            rcases List.mem_append.1 hn with hn | hn
            · exact within n (Queue.mem_of_mem_rest _next hn)
            · obtain ⟨e, _, rfl⟩ := List.mem_map.1 hn
              simp [BuildNode.configurations, TaskDependency.configurations])
          { done with configurations := done.configurations.insert (key (p, c)) }
  | some (.dependency d, rest) =>
    let (listed, answers) := done.answers.visit d
    match _listed : listed.val with
    | (_, ⟨notices, .error x⟩) => ⟨done.raised.reverse ++ notices, .error x⟩
    | (nodes, ⟨notices, .ok ()⟩) =>
      s.workOff base closed (rest.append nodes)
        (fun n hn _ hc => by
          rw [Queue.toList_append] at hn
          rcases List.mem_append.1 hn with hn | hn
          · exact within n (Queue.mem_of_mem_rest _next hn) _ hc
          · rcases visit_configurations (listed.property.symm.trans _listed) hn hc with hc | hc
            · exact within _ (Queue.mem_of_next? _next) _ (by simpa [BuildNode.configurations] using hc)
            · exact closed _ hc)
        { done with answers, raised := notices.reverse ++ done.raised }
termination_by
  potential s.configurationCost (fun c => done.configurations.contains (key c)) base + s.nodeCosts queue.toList
decreasing_by
  all_goals
    simp only [Queue.toList_of_next? _next, Queue.toList_append, nodeCosts, nodeCost, nodeCosts_append,
      nodeCosts_tasks, nodeCosts_edges]
  · omega
  · omega
  · omega
  · omega
  · have := potential_add_le s.configurationCost (fun c => done.configurations.contains (key c))
      (fun d => (done.configurations.insert (key (p, c))).contains (key d))
      (fun d h => by rw [Std.TreeSet.contains_insert, h, Bool.or_true])
      (within _ (Queue.mem_of_next? _next) (p, c) (by simp [BuildNode.configurations]))
      (Bool.eq_false_iff.2 _new) Std.TreeSet.contains_insert_self
    simp only [configurationCost, _found] at this
    omega
  · have := visit_cost (listed.property.symm.trans _listed)
    omega

/-- The tasks that the nodes need, in order. -/
def tasks (s : Store) (nodes : List BuildNode) : Reporting (List TaskPath) := do
  let found ← s.workOff (BuildNode.allConfigurations nodes ++ s.configurations)
    (fun _ h => List.mem_append_right _ h) (.ofList nodes)
    (fun n hn _ hc => by
      rw [Queue.toList_ofList] at hn
      exact List.mem_append_left _ (BuildNode.mem_allConfigurations.2 ⟨n, hn, hc⟩))
    (.start s)
  return found.toList

/-- The tasks that a task dependency needs. Nothing is kept from one query to the next. -/
def dependencyTasks (s : Store) (d : TaskDependency) : Reporting (List TaskPath) :=
  s.tasks [.dependency d]

end Store

end ProjectGraph
