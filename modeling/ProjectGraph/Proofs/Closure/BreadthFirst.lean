import ProjectGraph.Proofs.Closure.History

/-!
The breadth-first order of all that the seeds lead to, whether or not every edge leads somewhere: below an edge that
leads nowhere there is nothing. From any point on the members can be completed until nothing waits
(`InOrder.exists_complete`), and the members so far decide which one comes next (`InOrder.following_take`). So for
all seeds there is one order and no other.
-/

namespace ProjectGraph

namespace Store

variable {s : Store} {transitive : Bool} {seeds : List Dependency} {members members' : List Member}
  {waiting : List Pending}

theorem kids_sublist (s : Store) (transitive : Bool) (m : Member) :
    (s.kids transitive m).Sublist (s.below m.dependency) := by
  unfold kids
  split
  · exact List.filter_sublist
  · exact List.nil_sublist _

namespace InOrder

/-! ### There is an order -/

/-- All that waits is a seed or is declared somewhere. -/
theorem mem_of_waiting (h : InOrder s transitive seeds members waiting) :
    ∀ p ∈ waiting, p.dependency ∈ seeds ++ s.declared := by
  intro p hp
  obtain ⟨dealt, harrived, _⟩ := h.arrived
  have hp' : p ∈ s.arrivals transitive seeds members := by
    rw [harrived]
    exact List.mem_append_right _ hp
  rcases mem_arrivals.1 hp' with ⟨d, hd, rfl⟩ | ⟨m, _, d, hd, rfl⟩
  · exact List.mem_append_left _ hd
  · exact List.mem_append_right _ (mem_declared_of_mem_below ((kids_sublist s transitive m).subset hd))

/-- Whatever waits, going on ends. -/
theorem exists_complete (h : InOrder s transitive seeds members waiting) :
    ∃ more, InOrder s transitive seeds (members ++ more) [] := by
  -- The measure is that of the walk: a new member pays for all that it puts to the waiting list.
  induction hn : potential s.takeUpCost (fun d => (members.map (·.dependency)).contains d) (seeds ++ s.declared) +
      waiting.length using Nat.strongRecOn generalizing members waiting with
  | ind n ih =>
      cases waiting with
      | nil => exact ⟨[], by rwa [List.append_nil]⟩
      | cons p rest =>
          rw [List.length_cons] at hn
          cases hcontains : (members.map (·.dependency)).contains p.dependency with
          | true => exact ih _ (by omega) (h.drop hcontains) rfl
          | false =>
              have hpaid := potential_add_le s.takeUpCost (fun d => (members.map (·.dependency)).contains d)
                (fun d => ((members ++ [p.member]).map (·.dependency)).contains d)
                (fun d hd => by simp [List.contains_append, hd])
                (h.mem_of_waiting p List.mem_cons_self) hcontains (by simp [Pending.member])
              have hkids : (s.kids transitive p.member).length ≤ (s.below p.dependency).length :=
                (kids_sublist s transitive p.member).length_le
              have hless : potential s.takeUpCost
                  (fun d => ((members ++ [p.member]).map (·.dependency)).contains d) (seeds ++ s.declared) +
                  (rest ++ (s.kids transitive p.member).map (Pending.mk · p.member.rules)).length < n := by
                simp only [takeUpCost, List.length_append, List.length_map] at hpaid ⊢
                omega
              obtain ⟨more, hmore⟩ := ih _ hless (h.take hcontains) rfl
              exact ⟨p.member :: more, by rwa [List.append_assoc] at hmore⟩

end InOrder

/-! ### There is no other -/

/-- The member that comes next: the first arrival that is none of these members. -/
def following (s : Store) (transitive : Bool) (seeds : List Dependency) (front : List Member) : Option Member := do
  let come := s.arrivals transitive seeds front
  let d ← (firstOccurrences (come.map (·.dependency)))[front.length]?
  let p ← come.find? (·.dependency == d)
  return p.member

theorem prefix_arrivals {front : List Member} (h : front <+: members) :
    s.arrivals transitive seeds front <+: s.arrivals transitive seeds members := by
  obtain ⟨back, rfl⟩ := h
  refine ⟨back.flatMap fun m => (s.kids transitive m).map (⟨·, m.rules⟩), ?_⟩
  simp [arrivals]

namespace InOrder

theorem prefix_members (h : InOrder s transitive seeds members []) {front : List Member}
    (hfront : front <+: members) :
    firstOccurrences ((s.arrivals transitive seeds front).map (·.dependency)) <+: members.map (·.dependency) := by
  rw [h.map_dependency_eq, ← map_dependency_arrivals]
  exact prefix_firstOccurrences ((prefix_arrivals hfront).map _)

/-- Some of what arrives by the members in front is new, as long as more members come. -/
theorem length_lt (h : InOrder s transitive seeds members []) {front back : List Member} {m : Member}
    (hm : members = front ++ m :: back) :
    front.length < (firstOccurrences ((s.arrivals transitive seeds front).map (·.dependency))).length := by
  have hprefix := h.prefix_members (hm ▸ List.prefix_append front (m :: back))
  have hfront : front.map (·.dependency) <+: members.map (·.dependency) := by
    rw [hm]
    exact (List.prefix_append _ _).map _
  by_contra hshort
  rw [Nat.not_lt] at hshort
  -- Otherwise the first arrival of the next member would be the same as one in front of it.
  obtain ⟨earlier, p, later, harrivals, rfl, _⟩ := h.first front m back hm
  have hp : p.dependency ∈ (s.arrivals transitive seeds front).map (·.dependency) := by
    rw [harrivals]
    simp
  obtain ⟨d, hd, hsame⟩ := exists_mem_firstOccurrences hp
  have hin : d ∈ front.map (·.dependency) :=
    (List.prefix_of_prefix_length_le hprefix hfront (by simpa using hshort)).subset hd
  have hapart : (members.map (·.dependency)).Pairwise fun d d' => (d' == d) = false := by
    rw [h.map_dependency_eq]
    exact pairwise_firstOccurrences _
  rw [hm, List.map_append, List.map_cons] at hapart
  have hdifferent := (List.pairwise_append.1 hapart).2.2 d hin p.dependency List.mem_cons_self
  rw [hdifferent] at hsame
  cases hsame

theorem following_eq (h : InOrder s transitive seeds members []) {front back : List Member} {m : Member}
    (hm : members = front ++ m :: back) : s.following transitive seeds front = some m := by
  obtain ⟨earlier, p, later, harrivals, hp, hnew⟩ := h.first front m back hm
  have hdependency : m.dependency = p.dependency := congrArg Member.dependency hp.symm
  have hnext : (firstOccurrences ((s.arrivals transitive seeds front).map (·.dependency)))[front.length]? =
      some m.dependency := by
    rw [List.getElem?_eq_getElem (h.length_lt hm), List.IsPrefix.getElem
      (h.prefix_members (hm ▸ List.prefix_append front (m :: back))) (h.length_lt hm)]
    simp [hm]
  have hfound : (s.arrivals transitive seeds front).find? (·.dependency == m.dependency) = some p := by
    rw [List.find?_eq_some_iff_append]
    refine ⟨by simp [hdependency], earlier, later, harrivals, ?_⟩
    intro q hq
    simpa [hdependency] using hnew q hq
  simp [following, hnext, hfound, hp]

theorem following_self (h : InOrder s transitive seeds members []) : s.following transitive seeds members = none := by
  have hall : firstOccurrences ((s.arrivals transitive seeds members).map (·.dependency)) =
      members.map (·.dependency) := by
    rw [map_dependency_arrivals, ← h.map_dependency_eq]
  simp [following, hall]

/-- The members in front of a place decide which one stands there. -/
theorem following_take (h : InOrder s transitive seeds members []) (n : Nat) :
    s.following transitive seeds (members.take n) = members[n]? := by
  rcases Nat.lt_or_ge n members.length with hn | hn
  · have hm : members = members.take n ++ members[n] :: members.drop (n + 1) := by
      rw [← List.drop_eq_getElem_cons hn, List.take_append_drop]
    rw [List.getElem?_eq_getElem hn, h.following_eq hm]
  · rw [List.take_of_length_le hn, List.getElem?_eq_none hn, h.following_self]

/-- There is only one order. -/
theorem unique (h : InOrder s transitive seeds members []) (h' : InOrder s transitive seeds members' []) :
    members = members' := by
  have htake : ∀ n, members.take n = members'.take n := by
    intro n
    induction n with
    | zero => rfl
    | succ n ih => rw [List.take_add_one, List.take_add_one, ← h.following_take, ← h'.following_take, ih]
  refine List.ext_getElem? fun n => ?_
  rw [← h.following_take, ← h'.following_take, htake]

end InOrder

end Store

end ProjectGraph
