import ProjectGraph.Proofs.TaskSet.Walk

/-!
What the walk over build nodes finds. `Brought` is what the nodes bring, directly or through others, whatever
the order. A node that the walk recognises is passed over, and nothing is lost by that as long as it would
bring what the recognised one has brought. This holds of artifacts, whose tasks belong to their identity, and of
configurations if owner and name tell which one it is among all that come up.

So the tasks of nodes are the tasks among all that is brought, and the walk fails exactly if one of what is
brought does.
-/

namespace ProjectGraph

namespace Store

variable {s : Store} {nodes seen waiting : List BuildNode} {dealt : Dealt}

/-- What the nodes bring, directly or through others. -/
inductive Brought (s : Store) (nodes : List BuildNode) : BuildNode → Prop
  | start {n : BuildNode} (mem : n ∈ nodes) : Brought s nodes n
  | step {n n' : BuildNode} {brought : List BuildNode} (before : Brought s nodes n)
      (brings : (s.bring n).result = .ok brought) (mem : n' ∈ brought) : Brought s nodes n'

/-- Configurations of one owner and name are one and the same among all that comes up. -/
def Unambiguous (s : Store) (nodes : List BuildNode) : Prop :=
  ∀ p c p' c', Brought s nodes (.configuration p c) → Brought s nodes (.configuration p' c') →
    key (p, c) = key (p', c') → p = p' ∧ c = c'

/-- A node that is recognised for another one brings the same. -/
theorem Unambiguous.has_add (hu : s.Unambiguous nodes) {n m : BuildNode} (hn : Brought s nodes n)
    (hm : Brought s nodes m) (h : (dealt.add n).has m = true) :
    dealt.has m = true ∨ s.bring n = s.bring m := by
  cases m with
  | task t => cases h
  | dependency d => cases h
  | artifact a =>
      cases n with
      | artifact a' =>
          simp only [Dealt.has, Dealt.add, Std.TreeSet.contains_insert, Bool.or_eq_true] at h
          rcases h with h | h
          · right
            have hsame : a' == a := Std.LawfulBEqOrd.compare_eq_iff_beq.1 (beq_iff_eq.1 h)
            have hbuilt : a'.builtBy = a.builtBy := by
              have hidentity := Artifact.beq_iff.1 hsame
              simp only [Artifact.identity, Prod.mk.injEq] at hidentity
              exact hidentity.2.2.2.2
            rw [bring, bring, hbuilt]
          · exact Or.inl h
      | task t => exact Or.inl h
      | configuration p c => exact Or.inl h
      | dependency d => exact Or.inl h
  | configuration p c =>
      by_cases hother : ∃ p' c', n = .configuration p' c'
      · obtain ⟨p', c', rfl⟩ := hother
        rcases Dealt.has_add_configuration.1 h with hold | hkey
        · exact Or.inl hold
        · right
          obtain ⟨rfl, rfl⟩ := hu p' c' p c hn hm hkey
          rfl
      · left
        rwa [Dealt.has_configuration_add fun p' c' hn => hother ⟨p', c', hn⟩] at h

/-- What is known of the walk when `seen` is dealt with and `waiting` is still to come. -/
structure Survey (s : Store) (nodes seen waiting : List BuildNode) (dealt : Dealt) : Prop where
  start : ∀ n ∈ nodes, n ∈ seen ++ waiting
  brought : ∀ n ∈ seen ++ waiting, Brought s nodes n
  /-- What was dealt with has not failed, and all that it brings has come up. -/
  brings : ∀ n ∈ seen, ∃ brought, (s.bring n).result = .ok brought ∧ ∀ n' ∈ brought, n' ∈ seen ++ waiting
  /-- What is recognised brings what something that was dealt with has brought. -/
  known : ∀ n, Brought s nodes n → dealt.has n = true → ∃ n' ∈ seen, s.bring n' = s.bring n
  tasks : ∀ t, t ∈ dealt.tasks ↔ .task t ∈ seen

namespace Survey

theorem empty (s : Store) (nodes : List BuildNode) : Survey s nodes [] nodes .empty where
  start := fun n hn => hn
  brought := fun n hn => .start hn
  brings := by simp
  known := by
    intro n _ h
    cases n <;> simp [Dealt.has, Dealt.empty] at h
  tasks := by simp [Dealt.empty]

/-- A node that is recognised is passed over. -/
theorem pass {n : BuildNode} (h : Survey s nodes seen (n :: waiting) dealt) (hknown : dealt.has n = true) :
    Survey s nodes (seen ++ [n]) waiting dealt where
  start := by simpa using h.start
  brought := by simpa using h.brought
  brings := by
    -- What it would bring has come up with the one that it was recognised for.
    obtain ⟨old, hold, hsame⟩ := h.known n (h.brought n (by simp)) hknown
    intro m hm
    rcases List.mem_append.1 hm with hm | hm
    · simpa using h.brings m hm
    · rw [List.mem_singleton.1 hm, ← hsame]
      simpa using h.brings old hold
  known := by
    intro m hm hhas
    obtain ⟨old, hold, hsame⟩ := h.known m hm hhas
    exact ⟨old, List.mem_append_left _ hold, hsame⟩
  tasks := by
    intro t
    have hn : (.task t : BuildNode) ≠ n := by
      rintro rfl
      cases hknown
    simp [h.tasks, hn]

/-- A node that is not recognised is worked off, and what it brings waits behind all others. -/
theorem work (hu : s.Unambiguous nodes) {n : BuildNode} {brought : List BuildNode}
    (h : Survey s nodes seen (n :: waiting) dealt) (hbring : (s.bring n).result = .ok brought) :
    Survey s nodes (seen ++ [n]) (waiting ++ brought) (dealt.add n) := by
  have hn : Brought s nodes n := h.brought n (by simp)
  -- Nothing that has come up is lost by the step.
  have hcome : ∀ m ∈ seen ++ n :: waiting, m ∈ (seen ++ [n]) ++ (waiting ++ brought) := by
    intro m hm
    rw [show (seen ++ [n]) ++ (waiting ++ brought) = (seen ++ n :: waiting) ++ brought by simp]
    exact List.mem_append_left _ hm
  refine ⟨fun m hm => hcome m (h.start m hm), ?_, ?_, ?_, ?_⟩
  · intro m hm
    rw [show (seen ++ [n]) ++ (waiting ++ brought) = (seen ++ n :: waiting) ++ brought by simp] at hm
    rcases List.mem_append.1 hm with hm | hm
    · exact h.brought m hm
    · exact .step hn hbring hm
  · intro m hm
    rcases List.mem_append.1 hm with hm | hm
    · obtain ⟨more, hmore, hall⟩ := h.brings m hm
      exact ⟨more, hmore, fun n' hn' => hcome n' (hall n' hn')⟩
    · rw [List.mem_singleton.1 hm]
      exact ⟨brought, hbring, fun n' hn' => List.mem_append_right _ (List.mem_append_right _ hn')⟩
  · intro m hm hhas
    rcases hu.has_add hn hm hhas with hold | hsame
    · obtain ⟨old, hmem, hsame⟩ := h.known m hm hold
      exact ⟨old, List.mem_append_left _ hmem, hsame⟩
    · exact ⟨n, List.mem_append_right _ List.mem_cons_self, hsame⟩
  · intro t
    cases n with
    | task t' =>
        simp only [Dealt.add, Std.TreeSet.mem_insert, Std.LawfulEqCmp.compare_eq_iff_eq, h.tasks, List.mem_append,
          List.mem_singleton, BuildNode.task.injEq]
        rw [or_comm, eq_comm]
    | artifact a => simp [Dealt.add, h.tasks]
    | configuration p c => simp [Dealt.add, h.tasks]
    | dependency d => simp [Dealt.add, h.tasks]

theorem keeps (hu : s.Unambiguous nodes) :
    Keeps s.taskStep fun waiting dealt => ∃ seen, Survey s nodes seen waiting dealt := by
  rintro n queue added dealt dealt' notices ⟨seen, h⟩ hstep
  rcases taskStep_eq_ok (congrArg Reporting.result hstep) with ⟨hknown, rfl, rfl⟩ | ⟨_, hbring, rfl⟩
  · rw [List.append_nil]
    exact ⟨seen ++ [n], h.pass hknown⟩
  · exact ⟨seen ++ [n], h.work hu hbring⟩

/-- In the end all that is brought was dealt with. -/
theorem mem_seen (h : Survey s nodes seen [] dealt) {n : BuildNode} (hn : Brought s nodes n) : n ∈ seen := by
  induction hn with
  | start mem => simpa using h.start _ mem
  | step before brings mem ih =>
      obtain ⟨brought, hbrought, hall⟩ := h.brings _ ih
      rw [brings] at hbrought
      cases hbrought
      simpa using hall _ mem

end Survey

/-! ### What comes out -/

/-- Nothing that is brought fails, and its tasks come out in order. -/
theorem tasks_eq_ok (hu : s.Unambiguous nodes) {ts : List TaskPath} (h : (s.tasks nodes).result = .ok ts) :
    (∀ n, Brought s nodes n → ∃ brought, (s.bring n).result = .ok brought) ∧
      ts.Pairwise (fun t t' => compare t t' = .lt) ∧ ∀ t, t ∈ ts ↔ Brought s nodes (.task t) := by
  obtain ⟨outcome, hdrains, htasks⟩ := s.tasks_drains nodes
  rw [htasks] at h
  obtain ⟨notices, result⟩ := outcome
  cases result with
  | error x => cases h
  | ok dealt =>
      cases h
      obtain ⟨seen, hsurvey⟩ := hdrains.ok (Survey.keeps hu) ⟨[], Survey.empty s nodes⟩ rfl
      refine ⟨?_, Std.TreeSet.ordered_toList, ?_⟩
      · intro n hn
        obtain ⟨brought, hbrought, _⟩ := hsurvey.brings n (hsurvey.mem_seen hn)
        exact ⟨brought, hbrought⟩
      · intro t
        rw [Std.TreeSet.mem_toList, hsurvey.tasks]
        constructor
        · intro ht
          exact hsurvey.brought _ (List.mem_append_left _ ht)
        · exact hsurvey.mem_seen

/-- A failure is that of something that is brought. -/
theorem tasks_eq_error (hu : s.Unambiguous nodes) {x : BuildError} (h : (s.tasks nodes).result = .error x) :
    ∃ n, Brought s nodes n ∧ (s.bring n).result = .error x := by
  obtain ⟨outcome, hdrains, htasks⟩ := s.tasks_drains nodes
  rw [htasks] at h
  have herror : outcome.result = .error x := by
    cases hresult : outcome.result with
    | error y =>
        rw [hresult] at h
        cases h
        rfl
    | ok dealt =>
        rw [hresult] at h
        cases h
  obtain ⟨n, rest, dealt, ⟨seen, hsurvey⟩, hstep⟩ :=
    hdrains.failed (Survey.keeps hu) ⟨[], Survey.empty s nodes⟩ herror
  exact ⟨n, hsurvey.brought n (by simp), taskStep_eq_error hstep⟩

theorem tasks_eq_error_iff (hu : s.Unambiguous nodes) :
    (∃ x, (s.tasks nodes).result = .error x) ↔ ∃ n, Brought s nodes n ∧ ∃ x, (s.bring n).result = .error x := by
  constructor
  · rintro ⟨x, hx⟩
    obtain ⟨n, hn, hfailure⟩ := tasks_eq_error hu hx
    exact ⟨n, hn, x, hfailure⟩
  · rintro ⟨n, hn, x, hfailure⟩
    cases htasks : (s.tasks nodes).result with
    | error y => exact ⟨y, rfl⟩
    | ok ts =>
        obtain ⟨hbrings, _⟩ := tasks_eq_ok hu htasks
        obtain ⟨brought, hbrought⟩ := hbrings n hn
        rw [hfailure] at hbrought
        cases hbrought

/-! ### A single node -/

/-- A node brings itself and what its own nodes bring. -/
theorem brought_singleton {n m : BuildNode} {own : List BuildNode} (h : (s.bring n).result = .ok own) :
    Brought s [n] m ↔ m = n ∨ Brought s own m := by
  constructor
  · intro hm
    induction hm with
    | start mem => exact Or.inl (List.mem_singleton.1 mem)
    | step before brings mem ih =>
        right
        rcases ih with rfl | ih
        · rw [h] at brings
          cases brings
          exact .start mem
        · exact .step ih brings mem
  · rintro (rfl | hm)
    · exact .start List.mem_cons_self
    · induction hm with
      | start mem => exact .step (.start List.mem_cons_self) h mem
      | step before brings mem ih => exact .step ih brings mem

end Store

end ProjectGraph
