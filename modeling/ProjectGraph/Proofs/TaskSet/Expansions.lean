import ProjectGraph.Proofs.TaskSet.Reachability
import ProjectGraph.Proofs.Worklist.Taken
import Mathlib.Data.List.Nodup

/-!
How far the walk over build nodes goes. The configurations that it expands are those that it does not recognise when it
takes them up (`expansions`); no two of them have both owner and name in common, whatever the nodes it starts from.

Only an expansion brings more than it is: each of its edges, with the nodes that the edge brings whenever it is asked.
So the walk takes up no more nodes than the first ones cost, and what the expansions add.
-/

namespace ProjectGraph

namespace Store

variable {s : Store} {nodes queue : List BuildNode} {dealt last : Dealt} {taken : List (Dealt × BuildNode)}
  {outcome : Reporting Dealt}

/-- The walk over these nodes takes up these, in this order, and ends as the query for their tasks does. -/
def TasksTake (s : Store) (nodes : List BuildNode) (taken : List (Dealt × BuildNode)) : Prop :=
  ∃ last outcome, Takes s.taskStep nodes .empty taken last outcome ∧
    s.tasks nodes = ⟨outcome.notices, outcome.result.map (·.tasks.toList)⟩

theorem exists_tasksTake (s : Store) (nodes : List BuildNode) : ∃ taken, s.TasksTake nodes taken := by
  obtain ⟨outcome, hdrains, htasks⟩ := s.tasks_drains nodes
  obtain ⟨taken, last, h⟩ := hdrains.exists_takes
  exact ⟨taken, last, outcome, h, htasks⟩

theorem TasksTake.first {n : BuildNode} (h : s.TasksTake (n :: nodes) taken) :
    ∃ back, taken = (.empty, n) :: back := by
  obtain ⟨_, _, htakes, _⟩ := h
  exact htakes.first

/-- The configuration that is expanded when a node is taken up, if it is new. -/
def expansion? : Dealt × BuildNode → Option (ProjectId × Configuration)
  | (dealt, .configuration id c) => if dealt.has (.configuration id c) then none else some (id, c)
  | _ => none

/-- The configurations that are expanded when these nodes are taken up, in order. -/
def expansions (taken : List (Dealt × BuildNode)) : List (ProjectId × Configuration) := taken.filterMap expansion?

theorem expansion?_eq_some {dealt : Dealt} {n : BuildNode} {k : ProjectId × Configuration} :
    expansion? (dealt, n) = some k ↔ n = .configuration k.1 k.2 ∧ dealt.has n = false := by
  obtain ⟨id, c⟩ := k
  cases n with
  | configuration id' c' =>
      cases hnew : dealt.has (.configuration id' c') <;> simp [expansion?, hnew]
  | task t => simp [expansion?]
  | artifact a => simp [expansion?]
  | dependency d => simp [expansion?]

theorem mem_expansions {k : ProjectId × Configuration} :
    k ∈ expansions taken ↔ ∃ dealt, (dealt, .configuration k.1 k.2) ∈ taken ∧
      dealt.has (.configuration k.1 k.2) = false := by
  unfold expansions
  rw [List.mem_filterMap]
  constructor
  · rintro ⟨⟨dealt, n⟩, hmem, hnew⟩
    obtain ⟨rfl, hnew⟩ := expansion?_eq_some.1 hnew
    exact ⟨dealt, hmem, hnew⟩
  · rintro ⟨dealt, hmem, hnew⟩
    exact ⟨_, hmem, expansion?_eq_some.2 ⟨rfl, hnew⟩⟩

/-! ### Each configuration once -/

/-- What was recognised stays recognised. -/
theorem has_of_taskStep {dealt' : Dealt} {n : BuildNode} {added : List BuildNode}
    (h : (s.taskStep dealt n).result = .ok (dealt', added)) {id : ProjectId} {c : Configuration}
    (hknown : dealt.has (.configuration id c) = true) : dealt'.has (.configuration id c) = true := by
  rcases taskStep_eq_ok h with ⟨_, rfl, _⟩ | ⟨_, _, rfl⟩
  · exact hknown
  · cases n with
    | configuration id' c' => exact Dealt.has_add_configuration.2 (Or.inl hknown)
    | task t => exact hknown
    | artifact a => exact hknown
    | dependency d => exact hknown

/-- What is expanded is recognised from then on. -/
theorem has_of_expansion? {dealt' : Dealt} {n : BuildNode} {added : List BuildNode}
    (h : (s.taskStep dealt n).result = .ok (dealt', added)) {k : ProjectId × Configuration}
    (hk : expansion? (dealt, n) = some k) {id : ProjectId} {c : Configuration} (hkey : key k = key (id, c)) :
    dealt'.has (.configuration id c) = true := by
  obtain ⟨rfl, hnew⟩ := expansion?_eq_some.1 hk
  rcases taskStep_eq_ok h with ⟨hknown, _, _⟩ | ⟨_, _, rfl⟩
  · rw [hnew] at hknown
    cases hknown
  · exact Dealt.has_add_configuration.2 (Or.inr hkey)

/-- Nothing is expanded that is recognised at first, and nothing is expanded twice. -/
theorem nodup_expansions (h : Takes s.taskStep queue dealt taken last outcome) :
    ((expansions taken).map key).Nodup ∧ ∀ k ∈ expansions taken, dealt.has (.configuration k.1 k.2) = false := by
  induction h with
  | done dealt => simp [expansions]
  | @fails dealt n queue notices x failure =>
      cases hn : expansion? (dealt, n) with
      | none => simp [expansions, hn]
      | some k =>
          obtain ⟨rfl, hnew⟩ := expansion?_eq_some.1 hn
          simp [expansions, hn, hnew]
  | @goesOn dealt dealt' last n queue added taken notices outcome success rest ih =>
      obtain ⟨hnodup, hnew⟩ := ih
      have hstep := congrArg Reporting.result success
      have hrest : ∀ k ∈ expansions taken, dealt.has (.configuration k.1 k.2) = false := by
        intro k hk
        refine Bool.eq_false_iff.2 fun hknown => ?_
        exact Bool.eq_false_iff.1 (hnew k hk) (has_of_taskStep hstep hknown)
      cases hn : expansion? (dealt, n) with
      | none =>
          have heq : expansions ((dealt, n) :: taken) = expansions taken := List.filterMap_cons_none hn
          rw [heq]
          exact ⟨hnodup, hrest⟩
      | some k =>
          have heq : expansions ((dealt, n) :: taken) = k :: expansions taken := List.filterMap_cons_some hn
          rw [heq, List.map_cons, List.nodup_cons]
          refine ⟨⟨fun hmem => ?_, hnodup⟩, List.forall_mem_cons.2 ⟨?_, hrest⟩⟩
          · obtain ⟨k', hk', hkey⟩ := List.mem_map.1 hmem
            exact Bool.eq_false_iff.1 (hnew k' hk') (has_of_expansion? hstep hn hkey.symm)
          · obtain ⟨rfl, hfirst⟩ := expansion?_eq_some.1 hn
            exact hfirst

/-! ### What can be expanded -/

theorem visit_of_bring {d : TaskDependency} (h : (s.bring (.dependency d)).result = .ok nodes) :
    ∃ notices, s.visit d = (nodes, ⟨notices, .ok ()⟩) := by
  cases hd : s.visit d with
  | mk listed found =>
      rw [bring, hd] at h
      obtain ⟨_, hfound, h⟩ := Reporting.bind_eq_ok.1 h
      cases h
      exact ⟨found.notices, congrArg _ (congrArg (Reporting.mk _) hfound)⟩

/-- What a node brings names configurations that the node names itself, or registered ones. -/
theorem configurations_of_bring {n : BuildNode} (h : (s.bring n).result = .ok nodes) :
    ∀ n' ∈ nodes, ∀ k ∈ n'.configurations, k ∈ n.configurations ∨ k ∈ s.configurations := by
  intro n' hn' k hk
  cases n with
  | task t =>
      cases h
      cases hn'
  | artifact a =>
      cases h
      obtain ⟨t, _, rfl⟩ := List.mem_map.1 hn'
      cases hk
  | configuration id c =>
      obtain ⟨es, _, h⟩ := Reporting.bind_eq_ok.1 h
      cases h
      obtain ⟨e, _, rfl⟩ := List.mem_map.1 hn'
      simp [BuildNode.configurations, TaskDependency.configurations] at hk
  | dependency d =>
      obtain ⟨notices, hd⟩ := visit_of_bring h
      exact visit_configurations hd hn' hk

theorem expansions_subset (h : Takes s.taskStep nodes dealt taken last outcome) :
    expansions taken ⊆ BuildNode.allConfigurations nodes ++ s.configurations := by
  have htaken : ∀ t ∈ taken, t.2.configurations ⊆ BuildNode.allConfigurations nodes ++ s.configurations := by
    refine h.forall_taken (P := fun n => n.configurations ⊆ BuildNode.allConfigurations nodes ++ s.configurations) ?_ ?_
    · intro dealt n dealt' added hn hstep n' hn' k hk
      rcases taskStep_eq_ok hstep with ⟨_, _, rfl⟩ | ⟨_, hbring, _⟩
      · cases hn'
      · rcases configurations_of_bring hbring n' hn' k hk with hk | hk
        · exact hn hk
        · exact List.mem_append_right _ hk
    · exact fun n hn k hk => List.mem_append_left _ (BuildNode.mem_allConfigurations.2 ⟨n, hn, hk⟩)
  intro k hk
  obtain ⟨dealt', hmem, _⟩ := mem_expansions.1 hk
  exact htaken _ hmem (by simp [BuildNode.configurations])

/-! ### Counting the nodes -/

/-- What taking up a node adds beyond what the node costs. -/
def expansionCost (s : Store) (t : Dealt × BuildNode) : Nat := total s.configurationCost (expansion? t).toList

theorem total_expansionCost (s : Store) (taken : List (Dealt × BuildNode)) :
    total s.expansionCost taken = total s.configurationCost (expansions taken) := by
  induction taken with
  | nil => rfl
  | cons t taken ih =>
      cases ht : expansion? t <;> simp [total, expansionCost, expansions, ht, ih]

theorem total_nodeCost (s : Store) (nodes : List BuildNode) : total s.nodeCost nodes = s.nodeCosts nodes := by
  induction nodes with
  | nil => rfl
  | cons n nodes ih => rw [total, nodeCosts, ih]

theorem nodeCost_pos (s : Store) (n : BuildNode) : 1 ≤ s.nodeCost n := by
  cases n <;> simp [nodeCost]

/-- What a configuration brings costs what its expansion was to add. All else costs less than what brings it. -/
theorem nodeCosts_of_bring {n : BuildNode} (h : (s.bring n).result = .ok nodes) (hnew : dealt.has n = false) :
    1 + s.nodeCosts nodes ≤ s.nodeCost n + s.expansionCost (dealt, n) := by
  cases n with
  | task t =>
      cases h
      simp [nodeCosts, nodeCost]
  | artifact a =>
      cases h
      rw [nodeCosts_tasks, nodeCost]
      omega
  | configuration id c =>
      obtain ⟨es, hes, h⟩ := Reporting.bind_eq_ok.1 h
      cases h
      have hadds : s.expansionCost (dealt, .configuration id c) = total (fun e => 1 + s.edgeCost e) es := by
        have hes : s.edgesOf id c = .ok es := hes
        simp [expansionCost, expansion?, hnew, total, configurationCost, hes]
      exact Nat.le_of_eq (by rw [nodeCosts_edges, nodeCost, hadds])
  | dependency d =>
      obtain ⟨notices, hd⟩ := visit_of_bring h
      rw [visit_cost hd, nodeCost]
      omega

theorem length_taken_le (h : Takes s.taskStep nodes dealt taken last outcome) :
    taken.length ≤ s.nodeCosts nodes + total s.configurationCost (expansions taken) := by
  have hcount : taken.length + 0 ≤ total s.nodeCost nodes + total s.expansionCost taken + 0 := by
    refine Takes.length_le s.nodeCost (fun _ => 0) s.expansionCost s.nodeCost_pos ?_ h
    intro dealt n dealt' added hstep
    rw [total_nodeCost]
    rcases taskStep_eq_ok hstep with ⟨_, _, rfl⟩ | ⟨hnew, hbring, _⟩
    · have := s.nodeCost_pos n
      simp only [nodeCosts]
      omega
    · exact nodeCosts_of_bring hbring hnew
  rwa [total_nodeCost, total_expansionCost] at hcount

/-- The walk from edges expands each owner and name once, and takes up no more nodes than the edges cost and what all
registered configurations add. -/
theorem tasks_takes (s : Store) (es : List Edge) :
    ∃ taken, s.TasksTake (edgeSeeds es) taken ∧
      ((expansions taken).map key).Nodup ∧ expansions taken ⊆ s.configurations ∧
      taken.length ≤ total (fun e => 1 + s.edgeCost e) es + total s.configurationCost s.configurations := by
  obtain ⟨taken, last, outcome, h, htasks⟩ := s.exists_tasksTake (edgeSeeds es)
  have hkeys := (nodup_expansions h).1
  have hnone : BuildNode.allConfigurations (edgeSeeds es) = [] := by
    refine List.eq_nil_iff_forall_not_mem.2 fun k hk => ?_
    obtain ⟨n, hn, hkn⟩ := BuildNode.mem_allConfigurations.1 hk
    obtain ⟨e, _, rfl⟩ := List.mem_map.1 hn
    simp [BuildNode.configurations, TaskDependency.configurations] at hkn
  have hsubset : expansions taken ⊆ s.configurations := by
    have hall := expansions_subset h
    rwa [hnone, List.nil_append] at hall
  have hcount := length_taken_le h
  rw [edgeSeeds, nodeCosts_edges] at hcount
  have hbounded := total_le_of_nodup s.configurationCost (List.Nodup.of_map _ hkeys) hsubset
  exact ⟨taken, ⟨last, outcome, h, htasks⟩, hkeys, hsubset, by omega⟩

end Store

end ProjectGraph
