import ProjectGraph.Container.Hierarchy
import ProjectGraph.Proofs.Container.Runs

/-!
The hierarchy of a configuration without the walk. Its unfolding is the configuration, followed by the unfolding of
each parent in order: an ancestor stands there as often as there are ways up to it, so the unfolding may be
exponentially longer than the hierarchy. The hierarchy is what is left of it if each name is kept once, at its first
place.

The walk passes over a name it has met. That loses nothing, since whatever it has met and is not visiting any more has
all of its unfolding among what was entered (`Explored`), with no name in it that is being visited.
-/

namespace ProjectGraph

namespace Container

variable {k : Container} {c d : Configuration} {name : String} {names names' visiting parents : List String}
  {whole whole' members : List Configuration} {entered result : Entered}

/-- The configuration itself, and all that it extends, directly or through others. -/
inductive Inherits (k : Container) (c : Configuration) : Configuration → Prop
  | self : Inherits k c c
  | parent {d e : Configuration} {name : String} (before : Inherits k c d) (mem : name ∈ d.extendsFrom)
      (found : k.find? name = some e) : Inherits k c e

/-- What goes by the names, one after the other, each followed by all that its own parents unfold to. -/
inductive Unfolds (k : Container) : List String → List Configuration → Prop
  | nil : Unfolds k [] []
  | cons {name : String} {names : List String} {c : Configuration} {above rest : List Configuration}
      (found : k.find? name = some c) (parents : Unfolds k c.extendsFrom above) (others : Unfolds k names rest) :
      Unfolds k (name :: names) (c :: (above ++ rest))

/-- The configuration, whether or not it is still registered, followed by the unfolding of each parent. -/
def Unfolding (k : Container) (c : Configuration) (whole : List Configuration) : Prop :=
  ∃ above, k.Unfolds c.extendsFrom above ∧ whole = c :: above

theorem Unfolds.append (h : k.Unfolds names whole) (h' : k.Unfolds names' whole') :
    k.Unfolds (names ++ names') (whole ++ whole') := by
  induction h with
  | nil => exact h'
  | @cons name names c above rest found parents others ihParents ihOthers =>
      rw [List.cons_append, List.cons_append, List.append_assoc]
      exact .cons found parents ihOthers

theorem Unfolds.unique (h : k.Unfolds names whole) (h' : k.Unfolds names whole') : whole = whole' := by
  induction h generalizing whole' with
  | nil => cases h'; rfl
  | @cons name names c above rest found parents others ihParents ihOthers =>
      obtain _ | ⟨found', parents', others'⟩ := h'
      rw [found] at found'
      cases found'
      rw [ihParents parents', ihOthers others']

theorem Unfolding.unique (h : k.Unfolding c whole) (h' : k.Unfolding c whole') : whole = whole' := by
  obtain ⟨above, habove, rfl⟩ := h
  obtain ⟨above', habove', rfl⟩ := h'
  rw [habove.unique habove']

theorem Unfolds.registered (hk : k.Keyed) (h : k.Unfolds names whole) : ∀ d ∈ whole, k.find? d.name = some d := by
  induction h with
  | nil => simp
  | @cons name names c above rest found parents others ihParents ihOthers =>
      intro d hd
      rcases List.mem_cons.1 hd with rfl | hd
      · rw [hk.name_eq found]
        exact found
      · exact (List.mem_append.1 hd).elim (ihParents d) (ihOthers d)

theorem Unfolds.inherits (h : k.Unfolds names whole)
    (hnames : ∀ name ∈ names, ∃ d, k.Inherits c d ∧ name ∈ d.extendsFrom) : ∀ d ∈ whole, k.Inherits c d := by
  induction h with
  | nil => simp
  | @cons name names e above rest found parents others ihParents ihOthers =>
      obtain ⟨⟨below, hbelow, hname⟩, hothers⟩ := List.forall_mem_cons.1 hnames
      have he : k.Inherits c e := .parent hbelow hname found
      intro d hd
      rcases List.mem_cons.1 hd with rfl | hd
      · exact he
      · exact (List.mem_append.1 hd).elim (ihParents (fun p hp => ⟨e, he, hp⟩) d) (ihOthers hothers d)

/-- What goes by a name is there if the name is unfolded, and so are the parents of all that is there. -/
theorem Unfolds.closed (h : k.Unfolds names whole) :
    (∀ name ∈ names, ∃ e ∈ whole, k.find? name = some e) ∧
      ∀ d ∈ whole, ∀ parent ∈ d.extendsFrom, ∃ e ∈ whole, k.find? parent = some e := by
  induction h with
  | nil => simp
  | @cons name names c above rest found parents others ihParents ihOthers =>
      have habove : ∀ p, (∃ e ∈ above, k.find? p = some e) → ∃ e ∈ c :: (above ++ rest), k.find? p = some e := by
        rintro p ⟨e, he, hp⟩
        exact ⟨e, by simp [he], hp⟩
      have hrest : ∀ p, (∃ e ∈ rest, k.find? p = some e) → ∃ e ∈ c :: (above ++ rest), k.find? p = some e := by
        rintro p ⟨e, he, hp⟩
        exact ⟨e, by simp [he], hp⟩
      constructor
      · intro other hother
        rcases List.mem_cons.1 hother with rfl | hother
        · exact ⟨c, List.mem_cons_self, found⟩
        · exact hrest other (ihOthers.1 other hother)
      · intro d hd p hp
        rcases List.mem_cons.1 hd with rfl | hd
        · exact habove p (ihParents.1 p hp)
        · rcases List.mem_append.1 hd with hd | hd
          · exact habove p (ihParents.2 d hd p hp)
          · exact hrest p (ihOthers.2 d hd p hp)

/-- The unfolding holds the configuration and all that it inherits from, and nothing else. -/
theorem Unfolding.mem_iff (h : k.Unfolding c whole) : d ∈ whole ↔ k.Inherits c d := by
  obtain ⟨above, habove, rfl⟩ := h
  constructor
  · intro hd
    rcases List.mem_cons.1 hd with rfl | hd
    · exact .self
    · exact habove.inherits (fun p hp => ⟨c, .self, hp⟩) d hd
  · intro hd
    induction hd with
    | self => exact List.mem_cons_self
    | @parent d e name before mem found ih =>
        have hparent : ∃ e' ∈ above, k.find? name = some e' := by
          rcases List.mem_cons.1 ih with rfl | hd
          · exact habove.closed.1 name mem
          · exact habove.closed.2 d hd name mem
        obtain ⟨e', he', hfind⟩ := hparent
        rw [found] at hfind
        cases hfind
        exact List.mem_cons_of_mem _ he'

/-! ### What the walk has put behind it -/

theorem contains_entered : entered.contains name = true ↔ ∃ d ∈ entered.toList, d.name = name := by
  simp [Entered.contains_eq]

/-- Whatever was entered and is not being visited has been gone through: each name of its unfolding was entered, and
none of them is being visited. -/
def Explored (k : Container) (visiting : List String) (entered : Entered) : Prop :=
  ∀ d ∈ entered.toList, d.name ∉ visiting →
    ∃ whole, k.Unfolds [d.name] whole ∧ ∀ e ∈ whole, entered.contains e.name ∧ e.name ∉ visiting

theorem explored_start (k : Container) (c : Configuration) : k.Explored [c.name] (.start c) := by
  intro d hd hout
  rw [Entered.toList_start, List.mem_singleton] at hd
  exact absurd (List.mem_singleton.2 (congrArg (·.name) hd)) hout

/-- What is entered is being visited at first. -/
theorem Explored.enter (h : k.Explored visiting entered) (hnot : entered.contains c.name = false) :
    k.Explored (c.name :: visiting) (entered.add c) := by
  intro d hd hout
  rw [List.mem_cons, not_or] at hout
  rw [Entered.toList_add] at hd
  rcases List.mem_append.1 hd with hd | hd
  · obtain ⟨whole, hwhole, hnames⟩ := h d hd hout.2
    refine ⟨whole, hwhole, fun e he => ?_⟩
    obtain ⟨hentered, hnew⟩ := hnames e he
    have hne : e.name ≠ c.name := by
      intro heq
      rw [heq, hnot] at hentered
      cases hentered
    rw [Entered.contains_eq] at hentered ⊢
    refine ⟨?_, by simp [hne, hnew]⟩
    rw [Entered.toList_add, List.any_append, hentered, Bool.true_or]
  · exact absurd (congrArg (·.name) (List.mem_singleton.1 hd)) hout.1

/-- What was entered has been gone through when its parents have been. -/
theorem Explored.leave (h : k.Explored (c.name :: visiting) entered) (hfind : k.find? c.name = some c)
    {above : List Configuration} (habove : k.Unfolds c.extendsFrom above)
    (hnames : ∀ e ∈ c :: above, entered.contains e.name ∧ e.name ∉ visiting) : k.Explored visiting entered := by
  intro d hd hout
  by_cases hname : d.name = c.name
  · refine ⟨c :: above, ?_, hnames⟩
    rw [hname]
    simpa using Unfolds.cons hfind habove .nil
  · obtain ⟨whole, hwhole, hwholeNames⟩ := h d hd (by simp [hname, hout])
    refine ⟨whole, hwhole, fun e he => ?_⟩
    obtain ⟨hin, hno⟩ := hwholeNames e he
    exact ⟨hin, fun hmem => hno (List.mem_cons_of_mem _ hmem)⟩

/-- Entering parents adds their unfolding, each name once. -/
theorem unfolds_of_climb (hk : k.Keyed) (h : k.climb visiting entered parents = .ok result)
    (hentered : k.Explored visiting entered) :
    k.Explored visiting result ∧ ∃ above, k.Unfolds parents above ∧
      result.toList = appendNewOn (·.name) entered.toList above ∧ ∀ e ∈ above, e.name ∉ visiting := by
  fun_induction climb k visiting entered parents generalizing result with
  | case1 visiting entered =>
      cases h
      exact ⟨hentered, [], .nil, rfl, by simp⟩
  | case2 => cases h
  | case3 => cases h
  | case4 visiting entered parent parents c hfound hnew hold ih =>
      obtain ⟨hresult, rest, hrest, heq, hout⟩ := ih h hentered
      have hc : c.name = parent := hk.name_eq (find_eq_ok.1 hfound)
      obtain ⟨d, hd, hname⟩ := contains_entered.1 hold
      obtain ⟨whole, hwhole, hnames⟩ := hentered d hd (by rw [hname]; simpa using hnew)
      rw [hname, hc] at hwhole
      refine ⟨hresult, whole ++ rest, hwhole.append hrest, ?_, ?_⟩
      · -- All names of what the parent unfolds to were met before.
        have hmet : appendNewOn (·.name) entered.toList whole = entered.toList :=
          appendNewOn_of_forall_any _ fun e he => by
            rw [← Entered.contains_eq]
            exact (hnames e he).1
        rw [appendNewOn_append, hmet, heq]
      · intro e he
        exact (List.mem_append.1 he).elim (fun he => (hnames e he).2) (hout e)
  | case5 => cases h
  | case6 visiting entered parent parents c hfound hnew hnot inner hinner ih₁ ih₂ =>
      have hfind : k.find? parent = some c := find_eq_ok.1 hfound
      have hnot : entered.contains c.name = false := by simpa using hnot
      have hvisit : c.name ∉ visiting := by simpa using hnew
      obtain ⟨hinside, above, habove, hinnerList, hout⟩ := ih₁ hinner (hentered.enter hnot)
      have hadd : inner.toList = appendNewOn (·.name) entered.toList (c :: above) := by
        rw [Entered.contains_eq] at hnot
        rw [hinnerList, Entered.toList_add, appendNewOn_cons, if_neg (by simp [hnot])]
      have hnames : ∀ e ∈ c :: above, inner.contains e.name ∧ e.name ∉ visiting := by
        intro e he
        refine ⟨?_, ?_⟩
        · rw [Entered.contains_eq, hadd]
          exact any_appendNewOn _ _ he
        · rcases List.mem_cons.1 he with rfl | he
          · exact hvisit
          · exact fun hmem => hout e he (List.mem_cons_of_mem _ hmem)
      have hexplored : k.Explored visiting inner := by
        cases hk.name_eq hfind
        exact hinside.leave hfind habove hnames
      obtain ⟨hresult, rest, hrest, heq, hrestOut⟩ := ih₂ h hexplored
      refine ⟨hresult, c :: (above ++ rest), .cons hfind habove hrest, ?_, ?_⟩
      · rw [← List.cons_append, appendNewOn_append, ← hadd, heq]
      · intro e he
        rw [← List.cons_append] at he
        exact (List.mem_append.1 he).elim (fun he => (hnames e he).2) (hrestOut e)

/-! ### The hierarchy -/

/-- A hierarchy is the unfolding with each name once. In an unfolding that comes to an end, what goes by one name is
one configuration, also if the configuration it starts from was replaced long ago. -/
theorem unfolding_of_hierarchy (hk : k.Keyed) (h : k.hierarchy c = .ok members) :
    ∃ whole, k.Unfolding c whole ∧ members = firstOccurrencesOn (·.name) whole ∧
      ∀ d ∈ whole, ∀ e ∈ whole, d.name = e.name → d = e := by
  unfold hierarchy at h
  cases hclimb : k.climb [c.name] (.start c) c.extendsFrom with
  | error x =>
      rw [hclimb] at h
      cases h
  | ok result =>
      rw [hclimb] at h
      cases h
      obtain ⟨_, above, habove, heq, hout⟩ := unfolds_of_climb hk hclimb (k.explored_start c)
      have hother : ∀ e ∈ above, e.name ≠ c.name := fun e he hname => hout e he (List.mem_singleton.2 hname)
      refine ⟨c :: above, ⟨above, habove, rfl⟩, heq, ?_⟩
      intro d hd e he hname
      rcases List.mem_cons.1 hd with hdc | hdabove
      · rcases List.mem_cons.1 he with hec | heabove
        · rw [hdc, hec]
        · exact absurd (by rw [← hname, hdc]) (hother e heabove)
      · rcases List.mem_cons.1 he with hec | heabove
        · exact absurd (by rw [hname, hec]) (hother d hdabove)
        · have hfind := habove.registered hk d hdabove
          rw [hname, habove.registered hk e heabove] at hfind
          exact (Option.some.inj hfind).symm

/-- The members of a hierarchy are what the configuration inherits from. -/
theorem mem_hierarchy_iff (hk : k.Keyed) (h : k.hierarchy c = .ok members) : d ∈ members ↔ k.Inherits c d := by
  obtain ⟨whole, hwhole, rfl, hname⟩ := unfolding_of_hierarchy hk h
  rw [mem_firstOccurrencesOn _ hname, hwhole.mem_iff]

/-- What the members of the hierarchy hold is what the members of the unfolding hold, each item once. -/
theorem Unfolding.inherited_eq {α : Type} [BEq α] [Ord α] [Std.TransOrd α] [Std.LawfulBEqOrd α] (hk : k.Keyed)
    (h : k.hierarchy c = .ok members) (hwhole : k.Unfolding c whole) (items : Configuration → List α) :
    k.inherited c items = .ok (firstOccurrences (whole.flatMap items)) := by
  obtain ⟨whole', hwhole', rfl, hname⟩ := unfolding_of_hierarchy hk h
  cases hwhole.unique hwhole'
  exact inherited_eq_ok.2 ⟨_, h, firstOccurrences_flatMap_on _ items hname⟩

/-- What a configuration declares or inherits, told from the unfolding: each item once, at its first place. There is
one for whatever something inherited from declares, and none besides. -/
structure Gathers {α : Type} [BEq α] (k : Container) (c : Configuration) (whole : List Configuration)
    (items : Configuration → List α) (gathered : Except BuildError (List α)) : Prop where
  eq_ok : gathered = .ok (firstOccurrences (whole.flatMap items))
  represents : ∀ d, k.Inherits c d → ∀ x ∈ items d, ∃ y ∈ firstOccurrences (whole.flatMap items), x == y
  declared : ∀ y ∈ firstOccurrences (whole.flatMap items), ∃ d, k.Inherits c d ∧ y ∈ items d

theorem Unfolding.gathers {α : Type} [BEq α] [Ord α] [Std.TransOrd α] [Std.LawfulBEqOrd α] [EquivBEq α]
    (hk : k.Keyed) (h : k.hierarchy c = .ok members) (hwhole : k.Unfolding c whole)
    (items : Configuration → List α) : k.Gathers c whole items (k.inherited c items) := by
  refine ⟨hwhole.inherited_eq hk h items, ?_, ?_⟩
  · intro d hd x hx
    exact exists_mem_firstOccurrences (List.mem_flatMap.2 ⟨d, hwhole.mem_iff.2 hd, hx⟩)
  · intro y hy
    obtain ⟨d, hd, hyd⟩ := List.mem_flatMap.1 (mem_of_mem_firstOccurrences hy)
    exact ⟨d, hwhole.mem_iff.1 hd, hyd⟩

/-- In every container that a run leads to, and for every configuration, registered or not: a hierarchy is the one
unfolding there is with each name once, and what is declared or inherited is what is declared along the unfolding. -/
theorem hierarchy_is_unfolding {owner : ProjectPath} {ownerName : String} (hrun : (new owner ownerName).Run k)
    (h : k.hierarchy c = .ok members) :
    ∃ whole, k.Unfolding c whole ∧ (∀ other, k.Unfolding c other → other = whole) ∧
      members = firstOccurrencesOn (·.name) whole ∧
      k.Gathers c whole (·.dependencies) (k.allDependencies c) ∧
      k.Gathers c whole (·.constraints) (k.allConstraints c) ∧
      k.Gathers c whole (·.artifacts) (k.allArtifacts c) := by
  have hk : k.Keyed := hrun.keyed (keyed_new owner ownerName)
  obtain ⟨whole, hwhole, hmembers, _⟩ := unfolding_of_hierarchy hk h
  exact ⟨whole, hwhole, fun other hother => hother.unique hwhole, hmembers, hwhole.gathers hk h _,
    hwhole.gathers hk h _, hwhole.gathers hk h _⟩

/-- Needs a module of its own name, and what the parents need. -/
def extending (name : String) (parents : List String) : Declaration :=
  { Declaration.named name with
    extendsFrom := parents
    dependencies := [.module ⟨"g", name, some "1", .targeting none⟩] }

/-- Two ways lead from the runtime to the core. -/
def layered : Container :=
  let k := ((new .root "root project 'shop'").register (extending "core" [])).1
  let k := (k.register (extending "impl" ["core"])).1
  (k.register (extending "runtime" ["impl", "core"])).1

/-- The runtime stands alone in the end. -/
def parted : Container := (layered.configure "runtime" fun d k => ({ d with extendsFrom := [] }, k)).1

theorem run_parted : (new .root "root project 'shop'").Run parted :=
  ((((Run.refl _).register _).register _).register _).configure "runtime" _ fun _ _ => .refl _

/-- The runtime as it was before, in the container as it is now. -/
theorem hierarchy_is_unfolding_parted :
    let runtime := layered.own (extending "runtime" ["impl", "core"])
    let impl := layered.own (extending "impl" ["core"])
    let core := layered.own (extending "core" [])
    layered.find? "runtime" = some runtime ∧ parted.find? "runtime" ≠ some runtime ∧
      ∃ members, parted.hierarchy runtime = .ok members ∧
        members = firstOccurrencesOn (·.name) [runtime, impl, core, core] ∧
        parted.allDependencies runtime =
          .ok (firstOccurrences ([runtime, impl, core, core].flatMap (·.dependencies))) := by
  intro runtime impl core
  have hreplaced : parted.find? "runtime" ≠ some runtime := fun h =>
    absurd (congrArg (Option.map (·.extendsFrom)) h) (by decide +kernel)
  have himpl : parted.find? "impl" = some impl := rfl
  have hcore : parted.find? "core" = some core := rfl
  have hcoreUnfolds : parted.Unfolds ["core"] [core] := .cons hcore .nil .nil
  have hunfolding : parted.Unfolding runtime [runtime, impl, core, core] :=
    ⟨_, .cons himpl hcoreUnfolds hcoreUnfolds, rfl⟩
  cases h : parted.hierarchy runtime with
  | error x =>
      have hok : (parted.hierarchy runtime).isOk := by decide +kernel
      rw [h] at hok
      cases hok
  | ok members =>
      obtain ⟨whole, _, hunique, hmembers, hdependencies, _, _⟩ := hierarchy_is_unfolding run_parted h
      cases hunique _ hunfolding
      exact ⟨rfl, hreplaced, members, rfl, hmembers, hdependencies.eq_ok⟩

end Container

end ProjectGraph
