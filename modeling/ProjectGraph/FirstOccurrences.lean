/-!
Lists without repetition, in order of first occurrence. `appendNew kept items` adds to `kept` those of
`items` that it does not hold yet; `firstOccurrences items` starts from nothing, and `countsAfter` counts on
the way. Adding in two goes is adding the concatenation, so a list that is built up piece by piece is the one
of all pieces together. `appendNewOn` and `firstOccurrencesOn` tell the items apart by a key. Both ways of adding are
`appendUnknown`, which is told what counts as known.
-/

namespace ProjectGraph

section Unknown

variable {α : Type} (known : List α → α → Bool)

/-- Adds to `kept` each of `items` that is not known there yet. -/
def appendUnknown (kept items : List α) : List α :=
  items.foldl (fun kept x => if known kept x then kept else kept ++ [x]) kept

theorem appendUnknown_cons (kept : List α) (x : α) (xs : List α) :
    appendUnknown known kept (x :: xs) =
      appendUnknown known (if known kept x then kept else kept ++ [x]) xs := rfl

theorem appendUnknown_append (kept xs ys : List α) :
    appendUnknown known kept (xs ++ ys) = appendUnknown known (appendUnknown known kept xs) ys := by
  simp [appendUnknown, List.foldl_append]

/-- Items that are all known add nothing. -/
theorem appendUnknown_of_forall {kept items : List α} (h : ∀ x ∈ items, known kept x) :
    appendUnknown known kept items = kept := by
  induction items with
  | nil => rfl
  | cons x xs ih =>
    obtain ⟨hx, hxs⟩ := List.forall_mem_cons.1 h
    rw [appendUnknown_cons, if_pos hx]
    exact ih hxs

theorem mem_of_mem_appendUnknown {kept items : List α} {x : α} (h : x ∈ appendUnknown known kept items) :
    x ∈ kept ∨ x ∈ items := by
  induction items generalizing kept with
  | nil => exact Or.inl h
  | cons y ys ih =>
    rw [appendUnknown_cons] at h
    rcases ih h with h | h
    · split at h
      · exact Or.inl h
      · rcases List.mem_append.1 h with h | h
        · exact Or.inl h
        · exact Or.inr (List.mem_cons.2 (Or.inl (List.mem_singleton.1 h)))
    · exact Or.inr (List.mem_cons_of_mem _ h)

/-- What is kept stays in front. -/
theorem prefix_appendUnknown (kept items : List α) : kept <+: appendUnknown known kept items := by
  induction items generalizing kept with
  | nil => exact List.prefix_refl _
  | cons y ys ih =>
    rw [appendUnknown_cons]
    refine List.IsPrefix.trans ?_ (ih _)
    split
    · exact List.prefix_refl _
    · exact List.prefix_append _ _

end Unknown

variable {α : Type} [BEq α]

/-- Adds to `kept` each of `items` that it does not hold yet. -/
def appendNew (kept items : List α) : List α :=
  items.foldl (fun kept x => if kept.contains x then kept else kept ++ [x]) kept

/-- Each item once, at its first place. -/
def firstOccurrences (items : List α) : List α :=
  appendNew [] items

/-- How many items are kept after each of `items`. -/
def countsAfter (kept : List α) : List α → List Nat
  | [] => []
  | x :: xs =>
    let kept := appendNew kept [x]
    kept.length :: countsAfter kept xs

@[simp] theorem appendNew_nil (kept : List α) : appendNew kept [] = kept := rfl

theorem appendNew_cons (kept : List α) (x : α) (xs : List α) :
    appendNew kept (x :: xs) = appendNew (if kept.contains x then kept else kept ++ [x]) xs := rfl

theorem appendNew_append (kept xs ys : List α) :
    appendNew kept (xs ++ ys) = appendNew (appendNew kept xs) ys :=
  appendUnknown_append List.contains kept xs ys

/-- The counts are those of what is kept of each beginning of the items. -/
theorem countsAfter_eq (kept items : List α) :
    countsAfter kept items =
      (List.range items.length).map fun i => (appendNew kept (items.take (i + 1))).length := by
  induction items generalizing kept with
  | nil => rfl
  | cons x xs ih =>
    simp [countsAfter, ih, List.range_succ_eq_map, Function.comp_def, ← appendNew_append]

theorem mem_of_mem_appendNew {kept items : List α} {x : α} (h : x ∈ appendNew kept items) :
    x ∈ kept ∨ x ∈ items :=
  mem_of_mem_appendUnknown List.contains h

theorem mem_of_mem_firstOccurrences {items : List α} {x : α} (h : x ∈ firstOccurrences items) :
    x ∈ items := by
  simpa using mem_of_mem_appendNew h

theorem mem_appendNew [LawfulBEq α] {kept items : List α} {x : α} :
    x ∈ appendNew kept items ↔ x ∈ kept ∨ x ∈ items := by
  refine ⟨mem_of_mem_appendNew, fun h => ?_⟩
  induction items generalizing kept with
  | nil => simpa using h
  | cons y ys ih =>
    rw [appendNew_cons]
    refine ih ?_
    rcases h with h | h
    · left
      split
      · exact h
      · exact List.mem_append_left _ h
    · rcases List.mem_cons.1 h with rfl | h
      · left
        split
        · rename_i hx
          simpa using hx
        · exact List.mem_append_right _ List.mem_cons_self
      · exact Or.inr h

theorem mem_firstOccurrences [LawfulBEq α] {items : List α} {x : α} :
    x ∈ firstOccurrences items ↔ x ∈ items := by
  simp [firstOccurrences, mem_appendNew]

/-- What is kept stays in front. -/
theorem prefix_appendNew (kept items : List α) : kept <+: appendNew kept items :=
  prefix_appendUnknown List.contains kept items

/-- The first occurrences of a beginning are in front. -/
theorem prefix_firstOccurrences {xs ys : List α} (h : xs <+: ys) : firstOccurrences xs <+: firstOccurrences ys := by
  obtain ⟨rest, rfl⟩ := h
  rw [firstOccurrences, firstOccurrences, appendNew_append]
  exact prefix_appendNew _ rest

theorem appendNew_concat (kept items : List α) (x : α) :
    appendNew kept (items ++ [x]) =
      if (appendNew kept items).contains x then appendNew kept items else appendNew kept items ++ [x] := by
  rw [appendNew_append, appendNew_cons, appendNew_nil]

theorem contains_appendNew [EquivBEq α] (kept items : List α) (x : α) :
    (appendNew kept items).contains x = (kept.contains x || items.contains x) := by
  induction items generalizing kept with
  | nil => simp
  | cons y ys ih =>
    rw [appendNew_cons, ih, List.contains_cons, ← Bool.or_assoc]
    congr 1
    split
    · rename_i hy
      cases h : x == y with
      | false => simp
      | true =>
        obtain ⟨z, hz, hyz⟩ := List.contains_iff_exists_mem_beq.1 hy
        simpa using List.contains_iff_exists_mem_beq.2 ⟨z, hz, BEq.trans h hyz⟩
    · simp

theorem contains_firstOccurrences [EquivBEq α] (items : List α) (x : α) :
    (firstOccurrences items).contains x = items.contains x := by
  rw [firstOccurrences, contains_appendNew, List.contains_nil, Bool.false_or]

/-- Of each item there is one that is the same. -/
theorem exists_mem_firstOccurrences [EquivBEq α] {items : List α} {x : α} (h : x ∈ items) :
    ∃ y ∈ firstOccurrences items, x == y := by
  refine List.contains_iff_exists_mem_beq.1 ?_
  rw [contains_firstOccurrences]
  exact List.contains_iff_exists_mem_beq.2 ⟨x, h, BEq.rfl⟩

theorem pairwise_appendNew {kept : List α} (h : kept.Pairwise fun x y => (y == x) = false) (items : List α) :
    (appendNew kept items).Pairwise fun x y => (y == x) = false := by
  induction items generalizing kept with
  | nil => exact h
  | cons y ys ih =>
    rw [appendNew_cons]
    refine ih ?_
    split
    · exact h
    · rename_i hy
      refine List.pairwise_append.2 ⟨h, List.pairwise_singleton _ _, fun x hx z hz => ?_⟩
      rw [List.mem_singleton.1 hz]
      exact Bool.eq_false_iff.2 fun hyx => hy (List.contains_iff_exists_mem_beq.2 ⟨x, hx, hyx⟩)

/-- No two first occurrences are the same. -/
theorem pairwise_firstOccurrences (items : List α) :
    (firstOccurrences items).Pairwise fun x y => (y == x) = false :=
  pairwise_appendNew List.Pairwise.nil items

/-! ### By a key -/

section Key

variable {β κ : Type} [BEq κ] (key : β → κ)

/-- Adds to `kept` each of `items` whose key it does not hold yet. -/
def appendNewOn (kept items : List β) : List β :=
  appendUnknown (fun kept x => kept.any (key · == key x)) kept items

/-- Of each key the item that has it first. -/
def firstOccurrencesOn (items : List β) : List β :=
  appendNewOn key [] items

@[simp] theorem appendNewOn_nil (kept : List β) : appendNewOn key kept [] = kept := rfl

theorem appendNewOn_cons (kept : List β) (x : β) (xs : List β) :
    appendNewOn key kept (x :: xs) =
      appendNewOn key (if kept.any (key · == key x) then kept else kept ++ [x]) xs := rfl

theorem appendNewOn_append (kept xs ys : List β) :
    appendNewOn key kept (xs ++ ys) = appendNewOn key (appendNewOn key kept xs) ys :=
  appendUnknown_append _ kept xs ys

/-- Items whose keys are all there add nothing. -/
theorem appendNewOn_of_forall_any {kept items : List β} (h : ∀ x ∈ items, kept.any (key · == key x)) :
    appendNewOn key kept items = kept :=
  appendUnknown_of_forall _ h

/-- The key of each item is there in the end. -/
theorem any_appendNewOn [ReflBEq κ] (kept : List β) {items : List β} {x : β} (h : x ∈ items) :
    (appendNewOn key kept items).any (key · == key x) := by
  induction items generalizing kept with
  | nil => cases h
  | cons y ys ih =>
    rw [appendNewOn_cons]
    rcases List.mem_cons.1 h with rfl | h
    · have hany : (if kept.any (key · == key x) then kept else kept ++ [x]).any (key · == key x) := by
        split
        · assumption
        · simp
      obtain ⟨z, hz, hkey⟩ := List.any_eq_true.1 hany
      exact List.any_eq_true.2 ⟨z, (prefix_appendUnknown _ _ ys).subset hz, hkey⟩
    · exact ih _ h

/-- If items of one key are one, none gets lost. -/
theorem mem_firstOccurrencesOn [LawfulBEq κ] {whole : List β} {x : β}
    (h : ∀ x ∈ whole, ∀ y ∈ whole, key x = key y → x = y) : x ∈ firstOccurrencesOn key whole ↔ x ∈ whole := by
  have hmem : ∀ y ∈ firstOccurrencesOn key whole, y ∈ whole := fun y hy =>
    (mem_of_mem_appendUnknown _ hy).resolve_left (by simp)
  refine ⟨hmem x, fun hx => ?_⟩
  obtain ⟨y, hy, hkey⟩ := List.any_eq_true.1 (any_appendNewOn key [] hx)
  rwa [← h y (hmem y hy) x hx (eq_of_beq hkey)]

theorem firstOccurrences_flatMap_appendNewOn [EquivBEq α] [LawfulBEq κ] (items : β → List α) (kept whole : List β)
    (h : ∀ x ∈ kept ++ whole, ∀ y ∈ kept ++ whole, key x = key y → x = y) :
    firstOccurrences ((appendNewOn key kept whole).flatMap items) =
      firstOccurrences ((kept ++ whole).flatMap items) := by
  induction whole generalizing kept with
  | nil => simp
  | cons x xs ih =>
    rw [appendNewOn_cons]
    split
    · rename_i hany
      obtain ⟨y, hy, hkey⟩ := List.any_eq_true.1 hany
      have hyx : y = x := h y (by simp [hy]) x (by simp) (eq_of_beq hkey)
      rw [hyx] at hy
      have hrest : ∀ y ∈ kept ++ xs, y ∈ kept ++ x :: xs := by
        intro y hy
        simp only [List.mem_append, List.mem_cons] at hy ⊢
        exact hy.imp id Or.inr
      rw [ih kept fun y hy z hz => h y (hrest y hy) z (hrest z hz)]
      -- What `x` holds has been met in `kept`.
      have hmet : appendNew (firstOccurrences (kept.flatMap items)) (items x) =
          firstOccurrences (kept.flatMap items) := by
        refine appendUnknown_of_forall List.contains fun z hz => ?_
        obtain ⟨w, hw, hzw⟩ := exists_mem_firstOccurrences (List.mem_flatMap.2 ⟨x, hy, hz⟩)
        exact List.contains_iff_exists_mem_beq.2 ⟨w, hw, hzw⟩
      simp only [firstOccurrences, List.flatMap_append, List.flatMap_cons, appendNew_append] at hmet ⊢
      rw [hmet]
    · rw [ih (kept ++ [x]) (by simpa using h), List.append_assoc, List.singleton_append]

/-- If items of one key are one, it is enough to ask the first of each key what it holds. -/
theorem firstOccurrences_flatMap_on [EquivBEq α] [LawfulBEq κ] (items : β → List α) {whole : List β}
    (h : ∀ x ∈ whole, ∀ y ∈ whole, key x = key y → x = y) :
    firstOccurrences ((firstOccurrencesOn key whole).flatMap items) = firstOccurrences (whole.flatMap items) :=
  firstOccurrences_flatMap_appendNewOn key items [] whole h

end Key

end ProjectGraph
