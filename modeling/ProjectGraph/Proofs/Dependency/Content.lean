import ProjectGraph.Proofs.Dependency.Identity

/-!
Equality of content beside equality of edges. It compares the whole request, so it sees what does not belong to the
identity: whether the edge is transitive, and what it excludes. But it does not see the build flag, which does belong
to it. The two therefore differ both ways, and go together only for edges of one flag: there, equality of content is
equality plus these two.
-/

namespace ProjectGraph

namespace Edge

variable {a b : Edge}

theorem contentEquals_iff : a.contentEquals b ↔ a.request = b.request ∧ a.path = b.path := by
  simp [contentEquals]

/-- Of edges of equal content those are the same that have the same flag. -/
theorem beq_iff_of_contentEquals (h : a.contentEquals b) : a == b ↔ a.buildsProducer = b.buildsProducer := by
  obtain ⟨hrequest, hpath⟩ := contentEquals_iff.1 h
  rw [beq_iff]
  simp [identity, hrequest, hpath]

/-- The flag is the last bit that is joined to the hash. -/
theorem contentHash_eq_iff_of_contentEquals (h : a.contentEquals b) (ofPath : ProjectPath → UInt64)
    (ofName : String → UInt64) :
    a.contentHash ofPath ofName = b.contentHash ofPath ofName ↔ a.buildsProducer = b.buildsProducer := by
  obtain ⟨hrequest, hpath⟩ := contentEquals_iff.1 h
  rw [contentHash, contentHash, hrequest, hpath, UInt64.xor_right_inj]
  cases a.buildsProducer <;> cases b.buildsProducer <;> simp

theorem contentEquals_and_flag_iff :
    a.contentEquals b ∧ a.buildsProducer = b.buildsProducer ↔
      a == b ∧ a.request.transitive = b.request.transitive ∧ a.request.excludes = b.request.excludes := by
  constructor
  · rintro ⟨hcontent, hflag⟩
    obtain ⟨hrequest, _⟩ := contentEquals_iff.1 hcontent
    exact ⟨(beq_iff_of_contentEquals hcontent).2 hflag, by rw [hrequest], by rw [hrequest]⟩
  · rintro ⟨hsame, htransitive, hexcludes⟩
    have hidentity := beq_iff.1 hsame
    simp only [identity, Prod.mk.injEq] at hidentity
    obtain ⟨hpath, htarget, hflag, hattributes, hcapabilities⟩ := hidentity
    have hrequest : a.request = b.request := by
      cases hra : a.request
      cases hrb : b.request
      simp_all
    exact ⟨contentEquals_iff.2 ⟨hrequest, hpath⟩, hflag⟩

end Edge

namespace Build

variable {b : Build} {x y : Edge}

/-- Edges into one build whose content is equal select the same. -/
theorem select_eq_of_contentEquals (hx : x.Into b) (hy : y.Into b) (h : x.contentEquals y) :
    b.store.select x = b.store.select y := by
  obtain ⟨hrequest, hpath⟩ := Edge.contentEquals_iff.1 h
  have hproducer : x.producer = y.producer := producer_eq_of_path hx hy hpath
  refine Store.select_congr hpath ?_
  rw [Edge.destination, Edge.destination, hproducer, Edge.target, Edge.target, hrequest]

/-- What equality of content comes to. Edges of equal content are the same, have one hash and bring the same tasks if
their flags agree; they are told apart by `==` and by the hash if not. With equal flags it is equality that looks at
transitivity and excludes as well. -/
theorem content_equality (hb : b.Reachable) :
    (∀ x y : Edge, x.contentEquals y → (x == y ↔ x.buildsProducer = y.buildsProducer) ∧
      ∀ ofPath ofName, x.contentHash ofPath ofName = y.contentHash ofPath ofName ↔
        x.buildsProducer = y.buildsProducer) ∧
    (∀ x y : Edge, x.contentEquals y ∧ x.buildsProducer = y.buildsProducer ↔
      x == y ∧ x.request.transitive = y.request.transitive ∧ x.request.excludes = y.request.excludes) ∧
    ∀ x y : Edge, x.Made b.store → y.Made b.store → b.Has x.producer → b.Has y.producer → x.contentEquals y →
      b.store.select x = b.store.select y ∧
        (x.buildsProducer = y.buildsProducer →
          b.store.dependencyTasks (.ofEdge x) = b.store.dependencyTasks (.ofEdge y)) := by
  refine ⟨fun x y h => ⟨Edge.beq_iff_of_contentEquals h, Edge.contentHash_eq_iff_of_contentEquals h⟩,
    fun x y => Edge.contentEquals_and_flag_iff, ?_⟩
  intro x y hx hy hxhas hyhas h
  have hxinto : x.Into b := hb.coherent.into hx hxhas
  have hyinto : y.Into b := hb.coherent.into hy hyhas
  refine ⟨select_eq_of_contentEquals hxinto hyinto h, fun hflag => ?_⟩
  exact (lookups_eq_of_beq hxinto hyinto ((Edge.beq_iff_of_contentEquals h).2 hflag)).2

/-- An edge, and another one to the same place whose attributes were put in another order. -/
theorem content_equality_shop :
    let x := ((offerOf 1 "lib").addAttribute "usage" "api").addAttribute "format" "jar"
    let y := ((offerOf 1 "lib").addAttribute "format" "jar").addAttribute "usage" "api"
    x.contentEquals y ∧ x == y ∧ shop.store.select x = shop.store.select y ∧
      shop.store.dependencyTasks (.ofEdge x) = shop.store.dependencyTasks (.ofEdge y) := by
  intro x y
  have hcontent : x.contentEquals y := by decide +kernel
  have hx : x.Made shop.store := (made_offerOf_shop.addAttribute _ _).addAttribute _ _
  have hy : y.Made shop.store := (made_offerOf_shop.addAttribute _ _).addAttribute _ _
  have hhas : shop.Has x.producer := ⟨⟨["lib"]⟩, by decide +kernel⟩
  obtain ⟨hsame, _, hlookups⟩ := content_equality shop_reachable
  obtain ⟨hselect, htasks⟩ := hlookups x y hx hy hhas hhas hcontent
  exact ⟨hcontent, (hsame x y hcontent).1.2 rfl, hselect, htasks rfl⟩

/-- The same place once with its tasks and once without: the content is equal, and neither the edges nor their hashes
nor their tasks are. -/
theorem contentEquals_misses_flag :
    let x := Edge.requesting ⟨1⟩ ⟨["lib"]⟩ true (.targeting none)
    let y := Edge.requesting ⟨1⟩ ⟨["lib"]⟩ false (.targeting none)
    x.Made shop.store ∧ y.Made shop.store ∧ x.contentEquals y ∧ (x == y) = false ∧
      (∀ ofPath ofName, x.contentHash ofPath ofName ≠ y.contentHash ofPath ofName) ∧
      (shop.store.dependencyTasks (.ofEdge x)).result.toOption = some [⟨⟨["app"]⟩, "jar"⟩, ⟨⟨["lib"]⟩, "jar"⟩] ∧
      (shop.store.dependencyTasks (.ofEdge y)).result.toOption = some [] := by
  intro x y
  have hid : shop.tree.projects[(⟨["lib"]⟩ : ProjectPath)]? = some ⟨1⟩ := by decide +kernel
  obtain ⟨p, hp, hsound⟩ := shop_reachable.coherent _ _ hid
  have hmade : ∀ flag, (Edge.requesting ⟨1⟩ ⟨["lib"]⟩ flag (.targeting none)).Made shop.store := by
    intro flag
    rw [← hsound.path_eq]
    exact .new hp none flag
  have hcontent : x.contentEquals y := by decide +kernel
  refine ⟨hmade true, hmade false, hcontent, by decide +kernel, ?_, by decide +kernel, by decide +kernel⟩
  intro ofPath ofName h
  exact absurd ((Edge.contentHash_eq_iff_of_contentEquals hcontent ofPath ofName).1 h) (by decide)

end Build

end ProjectGraph
