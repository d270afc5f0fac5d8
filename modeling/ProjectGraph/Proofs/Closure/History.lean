import ProjectGraph.Proofs.Closure.Walk
import Mathlib.Data.List.Induction

/-!
What the walk behind a closure keeps. `arrivals` lists all that was ever put to the waiting list, in order: the
seeds, and the kids of each member under the exclude rules in force there. What was dealt with is a beginning
of the arrivals, its first occurrences are the members, and each member came in as the first of its kind, put
there by a member in front of it.

At the end nothing waits, so the members are the first occurrences of all arrivals. `InOrder.induction` is the
induction along the arrivals: what holds of the seeds and passes on to kids holds of every member.
-/

namespace ProjectGraph

namespace Store

variable {s : Store} {transitive : Bool} {seeds : List Dependency} {members : List Member}
  {waiting : List Pending}

/-- All that the seeds and these members put to the waiting list, in order. -/
def arrivals (s : Store) (transitive : Bool) (seeds : List Dependency) (members : List Member) :
    List Pending :=
  seeds.map (⟨·, []⟩) ++ members.flatMap fun m => (s.kids transitive m).map (⟨·, m.rules⟩)

theorem arrivals_concat (m : Member) :
    s.arrivals transitive seeds (members ++ [m]) =
      s.arrivals transitive seeds members ++ (s.kids transitive m).map (⟨·, m.rules⟩) := by
  simp [arrivals]

theorem map_dependency_arrivals :
    (s.arrivals transitive seeds members).map (·.dependency) =
      seeds ++ members.flatMap (s.kids transitive) := by
  simp [arrivals, List.map_flatMap, Function.comp_def]

theorem mem_arrivals {p : Pending} :
    p ∈ s.arrivals transitive seeds members ↔
      (∃ d ∈ seeds, (⟨d, []⟩ : Pending) = p) ∨
      ∃ m ∈ members, ∃ d ∈ s.kids transitive m, (⟨d, m.rules⟩ : Pending) = p := by
  simp only [arrivals, List.mem_append, List.mem_map, List.mem_flatMap]

/-- How the members came in, and what still waits. -/
structure InOrder (s : Store) (transitive : Bool) (seeds : List Dependency) (members : List Member)
    (waiting : List Pending) : Prop where
  /-- What was dealt with is in front of what waits, and the members are what is first there. -/
  arrived : ∃ dealt, s.arrivals transitive seeds members = dealt ++ waiting ∧
    members.map (·.dependency) = firstOccurrences (dealt.map (·.dependency))
  /-- Each member is the first arrival of its kind, from the seeds or the members in front of it. -/
  first : ∀ front m back, members = front ++ m :: back →
    ∃ earlier p later, s.arrivals transitive seeds front = earlier ++ p :: later ∧ p.member = m ∧
      ∀ q ∈ earlier, (q.dependency == p.dependency) = false

/-- Members that came in in order, without any failure. -/
structure History (s : Store) (transitive : Bool) (seeds : List Dependency) (members : List Member)
    (waiting : List Pending) : Prop extends InOrder s transitive seeds members waiting where
  /-- Each edge leads to a configuration that has a hierarchy. -/
  resolves : ∀ m ∈ members, ∀ e, m.dependency = .project e →
    ∃ p c above, s.Selects e p c ∧ p.container.hierarchy c = .ok above

namespace InOrder

/-! ### Steps -/

theorem start : InOrder s transitive seeds [] (seeds.map (⟨·, []⟩)) where
  arrived := ⟨[], by simp [arrivals], rfl⟩
  first := by
    intro front m back h
    simp at h

/-- What was reached before is dropped. -/
theorem drop {p : Pending} (h : InOrder s transitive seeds members (p :: waiting))
    (old : (members.map (·.dependency)).contains p.dependency) :
    InOrder s transitive seeds members waiting where
  arrived := by
    obtain ⟨dealt, harrived, hmembers⟩ := h.arrived
    refine ⟨dealt ++ [p], by simp [harrived], ?_⟩
    rw [List.map_append, List.map_singleton, firstOccurrences, appendNew_concat, ← firstOccurrences, ← hmembers,
      if_pos old]
  first := h.first

/-- What is new becomes a member, and its kids wait behind all others. -/
theorem take {p : Pending} (h : InOrder s transitive seeds members (p :: waiting))
    (new : (members.map (·.dependency)).contains p.dependency = false) :
    InOrder s transitive seeds (members ++ [p.member])
      (waiting ++ (s.kids transitive p.member).map (⟨·, p.member.rules⟩)) where
  arrived := by
    obtain ⟨dealt, harrived, hmembers⟩ := h.arrived
    refine ⟨dealt ++ [p], ?_, ?_⟩
    · rw [arrivals_concat, harrived]
      simp
    · rw [List.map_append, List.map_append, List.map_singleton, List.map_singleton, firstOccurrences,
        appendNew_concat, ← firstOccurrences, ← hmembers, new]
      rfl
  first := by
    intro front m back hsplit
    rcases List.eq_nil_or_concat back with rfl | ⟨back, last, rfl⟩
    · -- The member that has just come in.
      obtain ⟨rfl, hm⟩ := List.append_inj' hsplit rfl
      obtain ⟨dealt, harrived, hmembers⟩ := h.arrived
      refine ⟨dealt, p, waiting, harrived, (List.singleton_inj.1 hm), ?_⟩
      -- Had one of its kind arrived before, it would be among the members already.
      intro q hq
      rw [Bool.eq_false_iff]
      intro hqp
      obtain ⟨d, hd, hqd⟩ := exists_mem_firstOccurrences (List.mem_map_of_mem (f := (·.dependency)) hq)
      rw [← hmembers] at hd
      have hold : (members.map (·.dependency)).contains p.dependency :=
        List.contains_iff_exists_mem_beq.2 ⟨d, hd, BEq.trans (BEq.symm hqp) hqd⟩
      rw [new] at hold
      cases hold
    · rw [List.concat_eq_append, ← List.cons_append, ← List.append_assoc] at hsplit
      exact h.first front m back (List.append_inj' hsplit rfl).1

/-! ### What it says at the end -/

/-- The first occurrences of all arrivals are the members. -/
theorem map_dependency_eq (h : InOrder s transitive seeds members []) :
    members.map (·.dependency) = firstOccurrences (seeds ++ members.flatMap (s.kids transitive)) := by
  obtain ⟨dealt, harrived, hmembers⟩ := h.arrived
  rw [List.append_nil] at harrived
  rw [hmembers, ← harrived, map_dependency_arrivals]

/-- Of all that arrives there is a member that is the same. -/
theorem exists_mem_beq (h : InOrder s transitive seeds members []) {p : Pending}
    (hp : p ∈ s.arrivals transitive seeds members) : ∃ m ∈ members, m.dependency == p.dependency := by
  have harrived := List.mem_map_of_mem (f := (·.dependency)) hp
  rw [map_dependency_arrivals] at harrived
  obtain ⟨d, hd, hpd⟩ := exists_mem_firstOccurrences harrived
  rw [← h.map_dependency_eq] at hd
  obtain ⟨m, hm, rfl⟩ := List.mem_map.1 hd
  exact ⟨m, hm, BEq.symm hpd⟩

/-- What holds of seeds and passes on to kids holds of all members. -/
theorem induction (h : InOrder s transitive seeds members waiting) {P : Member → Prop}
    (seed : ∀ d ∈ seeds, P (⟨d, []⟩ : Pending).member)
    (kid : ∀ m ∈ members, P m → ∀ d ∈ s.kids transitive m, P (⟨d, m.rules⟩ : Pending).member) :
    ∀ m ∈ members, P m := by
  -- By the length of the front: a member owes its place to seeds and members in front of it.
  have all : ∀ front back, members = front ++ back → ∀ m ∈ front, P m := by
    intro front
    induction front using List.reverseRecOn with
    | nil => simp
    | append_singleton front last ih =>
        intro back hsplit m hm
        rw [List.append_assoc] at hsplit
        have hfront := ih _ hsplit
        rcases List.mem_append.1 hm with hm | hm
        · exact hfront m hm
        · cases List.mem_singleton.1 hm
          obtain ⟨earlier, p, later, harrivals, hp, _⟩ := h.first front last back hsplit
          have harrived : p ∈ s.arrivals transitive seeds front := by
            rw [harrivals]
            simp
          rw [← hp]
          rcases mem_arrivals.1 harrived with ⟨d, hd, rfl⟩ | ⟨q, hq, d, hd, rfl⟩
          · exact seed d hd
          · refine kid q ?_ (hfront q hq) d hd
            rw [hsplit]
            exact List.mem_append_left _ hq
  exact all members [] (List.append_nil _).symm

end InOrder

namespace History

/-! ### Steps of the walk -/

theorem start : History s transitive seeds [] (seeds.map (⟨·, []⟩)) where
  toInOrder := .start
  resolves := by simp

theorem drop {p : Pending} (h : History s transitive seeds members (p :: waiting))
    (old : (members.map (·.dependency)).contains p.dependency) :
    History s transitive seeds members waiting where
  toInOrder := h.toInOrder.drop old
  resolves := h.resolves

theorem take {p : Pending} {y : Yield} (h : History s transitive seeds members (p :: waiting))
    (new : (members.map (·.dependency)).contains p.dependency = false)
    (hy : (s.takeUp transitive p).result = .ok y) :
    History s transitive seeds (members ++ [p.member]) (waiting ++ y.below) where
  toInOrder := by
    rw [takeUp_below_eq hy]
    exact h.toInOrder.take new
  resolves := by
    intro m hm e he
    rcases List.mem_append.1 hm with hm | hm
    · exact h.resolves m hm e he
    · cases List.mem_singleton.1 hm
      obtain ⟨d, above⟩ := p
      cases (he : d = .project e)
      obtain ⟨q, c, hs, hsel, hh, _⟩ := takeUp_project_eq_ok hy
      exact ⟨q, c, hs, hsel, hh⟩

theorem keeps (s : Store) (transitive : Bool) (seeds : List Dependency) :
    Keeps (s.closureStep transitive) fun waiting c =>
      ∃ members, History s transitive seeds members waiting ∧ c.dependencies = members.map (·.dependency) := by
  rintro p queue added c c' notices ⟨members, h, hc⟩ hstep
  rcases closureStep_eq_ok (congrArg Reporting.result hstep) with ⟨old, rfl, rfl⟩ | ⟨new, y, hy, rfl, rfl⟩
  · rw [List.append_nil]
    exact ⟨members, h.drop (hc ▸ old), hc⟩
  · refine ⟨members ++ [p.member], h.take (hc ▸ new) hy, ?_⟩
    rw [List.map_append, ← hc]
    rfl

/-- The members so far have raised all notices so far, each its own. -/
theorem keepsAccount (s : Store) (transitive : Bool) (seeds : List Dependency) :
    KeepsAccount (s.closureStep transitive) fun waiting c raised =>
      (∃ members, History s transitive seeds members waiting ∧ c.dependencies = members.map (·.dependency)) ∧
        raised = c.dependencies.filterMap s.noticeOf := by
  rintro p queue added c c' notices raised ⟨hmembers, rfl⟩ hstep
  refine ⟨keeps s transitive seeds p queue added c c' notices hmembers hstep, ?_⟩
  have hnotices : notices = if c.dependencies.contains p.dependency then [] else (s.noticeOf p.dependency).toList := by
    rw [← s.notices_closureStep transitive c p, hstep]
  rw [hnotices]
  rcases closureStep_eq_ok (congrArg Reporting.result hstep) with ⟨old, rfl, _⟩ | ⟨new, y, _, _, rfl⟩
  · rw [if_pos old, List.append_nil]
  · rw [new, List.filterMap_append]
    cases hd : s.noticeOf p.dependency <;> simp [hd]

/-- The edges among the dependencies of the members lead somewhere. -/
theorem resolves_of_mem (h : History s transitive seeds members waiting) {e : Edge}
    (he : .project e ∈ members.map (·.dependency)) :
    ∃ p k above, s.Selects e p k ∧ p.container.hierarchy k = .ok above := by
  obtain ⟨m, hm, hme⟩ := List.mem_map.1 he
  exact h.resolves m hm e hme

end History

/-- Behind every closure is a history at whose end nothing waits. -/
theorem history_of_closure {i : Intake} {c : Closure} (h : (s.closure i).result = .ok c) :
    ∃ members, History s i.transitive i.dependencies members [] ∧
      c.dependencies = members.map (·.dependency) :=
  (closure_drains s i).ok (History.keeps s i.transitive i.dependencies) ⟨[], History.start, rfl⟩ h

end Store

end ProjectGraph
