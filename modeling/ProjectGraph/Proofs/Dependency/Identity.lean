import Mathlib.Data.List.Sort
import ProjectGraph.BuildFile.Load
import ProjectGraph.Proofs.Build.Edges
import ProjectGraph.Proofs.TaskSet.Walk

/-!
The identity of edges. Equality, hash and copy are each written over fields of their own choice; here it is shown
that they go together, whatever the hash functions are, and that the order in which attributes were put does not
count.

Identity is enough for all that is looked up. An edge as it is made goes by the path of its producer, so two edges
into one build that are the same have the same destination. They select the same, raise the same notices, and
bring the same to a walk over build nodes. So a list of edges may be cut down to its first occurrences.
-/

namespace ProjectGraph

/-! ### Attributes -/

namespace SortedMap

variable {κ ν : Type} [Ord κ] [Std.LawfulEqOrd κ]

theorem lookupEntry_eq_some {key : κ} {value : ν} {entries : List (κ × ν)} (h : Ascending entries) :
    lookupEntry key entries = some value ↔ (key, value) ∈ entries := by
  refine ⟨mem_of_lookupEntry, fun hmem => ?_⟩
  have hself : compare key key = .eq := Std.ReflCmp.compare_self
  induction entries with
  | nil => cases hmem
  | cons hd tl ih =>
      obtain ⟨k, v⟩ := hd
      obtain ⟨hall, htl⟩ := List.pairwise_cons.1 h
      rw [lookupEntry]
      rcases List.mem_cons.1 hmem with heq | htail
      · cases heq
        rw [if_pos hself]
      · -- What stands further back has a greater key.
        have hne : compare key k ≠ .eq := by
          intro heq
          cases Std.LawfulEqOrd.eq_of_compare heq
          have hlt : compare key key = .lt := hall (key, value) htail
          rw [hself] at hlt
          cases hlt
        rw [if_neg hne]
        exact ih htl htail

variable [Std.TransOrd κ]

/-- A map is what can be looked up in it. -/
theorem ext_get? {m m' : SortedMap κ ν} (h : ∀ key, m.get? key = m'.get? key) : m = m' := by
  apply ext_entries
  -- The order of the entries is strict.
  have hasymm : Std.Asymm fun a b : κ × ν => compare a.1 b.1 = .lt := by
    constructor
    intro a b hab hba
    rw [Std.OrientedCmp.gt_of_lt hab] at hba
    cases hba
  refine m.ascending.eq_of_mem_iff m'.ascending ?_
  rintro ⟨key, value⟩
  rw [← lookupEntry_eq_some m.ascending, ← lookupEntry_eq_some m'.ascending]
  exact iff_of_eq (congrArg (· = some value) (h key))

variable [DecidableEq κ]

theorem get?_insert (m : SortedMap κ ν) (key other : κ) (value : ν) :
    (m.insert key value).get? other = if other = key then some value else m.get? other := by
  split
  · rename_i heq
    rw [heq, get?_insert_self]
  · rename_i hne
    exact get?_insert_of_ne m value hne

theorem insert_insert (m : SortedMap κ ν) (key : κ) (earlier later : ν) :
    (m.insert key earlier).insert key later = m.insert key later := by
  apply ext_get?
  intro other
  simp only [get?_insert]
  split <;> rfl

theorem insert_comm (m : SortedMap κ ν) {key key' : κ} (hne : key ≠ key') (value value' : ν) :
    (m.insert key value).insert key' value' = (m.insert key' value').insert key value := by
  apply ext_get?
  intro other
  simp only [get?_insert]
  split
  · rename_i heq
    rw [if_neg (fun h => hne (h.symm.trans heq))]
  · rfl

end SortedMap

/-! ### One edge -/

namespace Edge

variable {a b : Edge}

/-- `b` is `a` but for what does not belong to the identity. -/
theorem beq_of_plain {transitive : Bool} {excludes : List ExcludeRule}
    (h : b = { a with request := { a.request with transitive, excludes } }) : b == a := by
  subst h
  exact beq_iff.2 rfl

theorem contentHash_eq_of_beq (h : a == b) (ofPath : ProjectPath → UInt64) (ofName : String → UInt64) :
    a.contentHash ofPath ofName = b.contentHash ofPath ofName := by
  have hidentity := beq_iff.1 h
  simp only [identity, Prod.mk.injEq] at hidentity
  obtain ⟨hpath, htarget, hbuilds, _⟩ := hidentity
  simp only [contentHash, hpath, htarget, hbuilds]

theorem beq_eq_false_of_absent {name : String} (ha : a.request.targetConfiguration = none)
    (hb : b.request.targetConfiguration = some name) : (a == b) = false := by
  rw [Bool.eq_false_iff]
  intro h
  have hidentity := beq_iff.1 h
  simp [identity, ha, hb] at hidentity

theorem copy_eq (a : Edge) : a.copy = a := rfl

theorem contentEquals_self (a : Edge) : a.contentEquals a := by
  simp [contentEquals]

theorem equivalence_beq : Equivalence fun a b : Edge => (a == b) = true where
  refl _ := BEq.rfl
  symm h := BEq.symm h
  trans h h' := BEq.trans h h'

/--
Edges as they are made: to a project that is there, and then changed in any order. A project keeps its number and
its path, so an edge that was made earlier is one that could be made now.
-/
inductive Made (s : Store) : Edge → Prop
  | new {id : ProjectId} {p : Project} (there : s.project? id = some p) (configuration : Option String)
      (buildsProducer : Bool) : Made s (.requesting id p.path buildsProducer (.targeting configuration))
  | setTransitive {e : Edge} (before : Made s e) (transitive : Bool) : Made s (e.setTransitive transitive)
  | addAttribute {e : Edge} (before : Made s e) (key value : String) : Made s (e.addAttribute key value)
  | addCapability {e : Edge} (before : Made s e) (c : Capability) : Made s (e.addCapability c)
  | addExclude {e : Edge} (before : Made s e) (r : ExcludeRule) : Made s (e.addExclude r)

/-- An edge goes by the path of its producer. -/
theorem Made.path_eq {s : Store} {e : Edge} (h : e.Made s) :
    ∃ p, s.project? e.producer = some p ∧ e.path = p.path := by
  induction h with
  | new there configuration buildsProducer => exact ⟨_, there, rfl⟩
  | setTransitive before transitive ih => exact ih
  | addAttribute before key value ih => exact ih
  | addCapability before c ih => exact ih
  | addExclude before r ih => exact ih

end Edge

/-! ### What edges bring -/

namespace Store

variable {s : Store}

theorem select_congr {x y : Edge} (hpath : x.path = y.path) (hdestination : x.destination = y.destination) :
    s.select x = s.select y := by
  obtain ⟨hproducer, htarget⟩ := Destination.mk.inj hdestination
  simp only [select, producer, hpath, hproducer, htarget]

theorem edgeNodes_congr {x y : Edge} (hpath : x.path = y.path) (hdestination : x.destination = y.destination)
    (hbuilds : x.buildsProducer = y.buildsProducer) : s.edgeNodes x = s.edgeNodes y := by
  rw [edgeNodes_eq, edgeNodes_eq, hpath, hdestination, hbuilds]

/-- Nodes that a walk may take for each other: they bring the same and are recognised by the same. -/
structure Interchangeable (s : Store) (n n' : BuildNode) : Prop where
  bring_eq : s.bring n = s.bring n'
  has_eq : ∀ dealt : Dealt, dealt.has n = dealt.has n'
  add_eq : ∀ dealt : Dealt, dealt.add n = dealt.add n'

theorem Interchangeable.refl (s : Store) (n : BuildNode) : s.Interchangeable n n :=
  ⟨rfl, fun _ => rfl, fun _ => rfl⟩

theorem Interchangeable.taskStep {n n' : BuildNode} (h : s.Interchangeable n n') (dealt : Dealt) :
    s.taskStep dealt n = s.taskStep dealt n' := by
  simp only [Store.taskStep, h.bring_eq, h.has_eq, h.add_eq]

theorem tasks_congr {nodes nodes' : List BuildNode} (h : List.Forall₂ s.Interchangeable nodes nodes') :
    s.tasks nodes = s.tasks nodes' := by
  obtain ⟨outcome, hdrains, htasks⟩ := s.tasks_drains nodes
  obtain ⟨outcome', hdrains', htasks'⟩ := s.tasks_drains nodes'
  have hsame : outcome = outcome' := by
    refine Drains.lockstep ?_ hdrains hdrains' h
    intro dealt n n' hn
    rw [hn.taskStep dealt]
    generalize s.taskStep dealt n' = result
    obtain ⟨notices, failure | ⟨dealt', added⟩⟩ := result
    · exact .fails notices failure
    · exact .goesOn notices dealt' (List.forall₂_same.2 fun m _ => .refl s m)
  rw [htasks, htasks', hsame]

theorem dependencyTasks_congr {x y : Edge} (h : s.edgeNodes x = s.edgeNodes y) :
    s.dependencyTasks (.ofEdge x) = s.dependencyTasks (.ofEdge y) := by
  have hnodes : s.Interchangeable (.dependency (.ofEdge x)) (.dependency (.ofEdge y)) :=
    ⟨by rw [bring_edge, bring_edge, h], fun _ => rfl, fun _ => rfl⟩
  exact tasks_congr (.cons hnodes .nil)

end Store

namespace Build

variable {b : Build} {x y : Edge}

/-- The project is one of the tree. -/
def Has (b : Build) (id : ProjectId) : Prop := ∃ path : ProjectPath, b.tree.projects[path]? = some id

theorem Coherent.into (hb : b.Coherent) (h : x.Made b.store) (hhas : b.Has x.producer) : x.Into b := by
  obtain ⟨path, hid⟩ := hhas
  obtain ⟨p, hp, hsound⟩ := hb path x.producer hid
  obtain ⟨q, hq, hpath⟩ := h.path_eq
  rw [hp] at hq
  cases hq
  unfold Edge.Into
  rw [hpath, hsound.path_eq]
  exact hid

/-- Edges into one build that are the same are looked up alike. -/
theorem lookups_eq_of_beq (hx : x.Into b) (hy : y.Into b) (h : x == y) :
    b.store.select x = b.store.select y ∧
      b.store.dependencyTasks (.ofEdge x) = b.store.dependencyTasks (.ofEdge y) := by
  have hdestination := destination_eq_of_beq hx hy h
  have hidentity := Edge.beq_iff.1 h
  simp only [Edge.identity, Prod.mk.injEq] at hidentity
  obtain ⟨hpath, _, hbuilds, _⟩ := hidentity
  exact ⟨Store.select_congr hpath hdestination,
    Store.dependencyTasks_congr (Store.edgeNodes_congr hpath hdestination hbuilds)⟩

/-- Equality, hash and copy of edges go together, and edges of one tree that are the same are looked up alike, so
none is missed if only the first occurrences of a list of edges are kept. -/
theorem edge_identity (hb : b.Reachable) :
    Equivalence (fun x y : Edge => (x == y) = true) ∧
    (∀ x y : Edge, x == y → ∀ ofPath ofName, x.contentHash ofPath ofName = y.contentHash ofPath ofName) ∧
    (∀ (x : Edge) (transitive : Bool) (excludes : List ExcludeRule),
      let y := { x with request := { x.request with transitive, excludes } }
      y == x ∧ ∀ ofPath ofName, y.contentHash ofPath ofName = x.contentHash ofPath ofName) ∧
    (∀ (x : Edge) (key earlier later : String),
      (x.addAttribute key earlier).addAttribute key later = x.addAttribute key later) ∧
    (∀ (x : Edge) (key key' value value' : String), key ≠ key' →
      (x.addAttribute key value).addAttribute key' value' = (x.addAttribute key' value').addAttribute key value) ∧
    (∀ (x y : Edge) (name : String), x.request.targetConfiguration = none →
      y.request.targetConfiguration = some name → (x == y) = false) ∧
    (∀ x : Edge, x.copy == x ∧ x.copy.contentEquals x ∧
      ∀ ofPath ofName, x.copy.contentHash ofPath ofName = x.contentHash ofPath ofName) ∧
    (∀ x y : Edge, x.Made b.store → y.Made b.store → b.Has x.producer → b.Has y.producer → x == y →
      b.store.select x = b.store.select y ∧
        b.store.dependencyTasks (.ofEdge x) = b.store.dependencyTasks (.ofEdge y)) ∧
    ∀ es : List Edge, (∀ e ∈ es, e.Made b.store ∧ b.Has e.producer) → ∀ x ∈ es, ∃ y ∈ firstOccurrences es,
      x == y ∧ b.store.select x = b.store.select y ∧
        b.store.dependencyTasks (.ofEdge x) = b.store.dependencyTasks (.ofEdge y) := by
  refine ⟨Edge.equivalence_beq, fun x y h => Edge.contentHash_eq_of_beq h, ?_, ?_, ?_,
    fun x y name => Edge.beq_eq_false_of_absent, ?_, ?_, ?_⟩
  · intro x transitive excludes y
    have hsame : y == x := Edge.beq_of_plain rfl
    exact ⟨hsame, Edge.contentHash_eq_of_beq hsame⟩
  · intro x key earlier later
    simp only [Edge.addAttribute, SortedMap.insert_insert]
  · intro x key key' value value' hne
    simp only [Edge.addAttribute, SortedMap.insert_comm _ hne]
  · intro x
    rw [x.copy_eq]
    exact ⟨BEq.rfl, x.contentEquals_self, fun _ _ => rfl⟩
  · intro x y hx hy hxhas hyhas h
    exact lookups_eq_of_beq (hb.coherent.into hx hxhas) (hb.coherent.into hy hyhas) h
  · intro es hes x hx
    have hinto : ∀ e ∈ es, e.Into b := fun e he => hb.coherent.into (hes e he).1 (hes e he).2
    obtain ⟨y, hy, h⟩ := exists_mem_firstOccurrences hx
    exact ⟨y, hy, h, lookups_eq_of_beq (hinto x hx) (hinto y (mem_of_mem_firstOccurrences hy)) h⟩

theorem made_offerOf_shop : (offerOf 1 "lib").Made shop.store := by
  have hid : shop.tree.projects[(⟨["lib"]⟩ : ProjectPath)]? = some ⟨1⟩ := by decide +kernel
  obtain ⟨p, hp, hsound⟩ := shop_reachable.coherent _ _ hid
  have hmade := Edge.Made.new hp none true
  rwa [hsound.path_eq] at hmade

/-- An edge, and one that hands on less: they are the same, and lead to the same. -/
theorem edge_identity_shop :
    let x := offerOf 1 "lib"
    let y := (x.setTransitive false).addExclude ⟨some "g", some "m"⟩
    x ≠ y ∧ x.Made shop.store ∧ y.Made shop.store ∧ shop.Has x.producer ∧
      shop.store.select x = shop.store.select y ∧
      shop.store.dependencyTasks (.ofEdge x) = shop.store.dependencyTasks (.ofEdge y) := by
  intro x y
  have hx : x.Made shop.store := made_offerOf_shop
  have hy : y.Made shop.store := (hx.setTransitive false).addExclude _
  have hhas : shop.Has x.producer := ⟨⟨["lib"]⟩, by decide +kernel⟩
  obtain ⟨_, _, _, _, _, _, _, hlookups, _⟩ := edge_identity shop_reachable
  exact ⟨by decide, hx, hy, hhas, hlookups x y hx hy hhas hhas rfl⟩

end Build

end ProjectGraph
