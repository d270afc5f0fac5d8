import Mathlib.Data.List.Nodup

/-!
Lists and the order of their members. A list that ascends is determined by its members, and these stand in it as they
are ordered. What stands ahead of what in a list (`Ahead`) is an order of its members if none of them is there twice.
-/

namespace ProjectGraph

/-- In the list the first stands somewhere in front of the second. -/
def Ahead {α : Type} (l : List α) (a b : α) : Prop := [a, b].Sublist l

namespace Ahead

variable {α : Type} {l l' front back : List α} {a b c : α}

theorem mem_left (h : Ahead l a b) : a ∈ l := h.subset (by simp)

theorem mem_right (h : Ahead l a b) : b ∈ l := h.subset (by simp)

theorem of_sublist (h : Ahead l a b) (hl : l.Sublist l') : Ahead l' a b := List.Sublist.trans h hl

theorem irrefl (hl : l.Nodup) : ¬ Ahead l a a := List.nodup_iff_sublist.1 hl a

/-- What stands behind a member that is there once is what comes after it. -/
theorem iff_mem (hl : (front ++ a :: back).Nodup) : Ahead (front ++ a :: back) a b ↔ b ∈ back := by
  constructor
  · intro h
    induction front with
    | nil => exact List.singleton_sublist.1 (List.cons_sublist_cons.1 h)
    | cons d front ih =>
        obtain ⟨hd, hrest⟩ := List.nodup_cons.1 hl
        rcases List.sublist_cons_iff.1 h with h | ⟨_, heq, _⟩
        · exact ih hrest h
        · cases heq
          exact absurd (List.mem_append_right front List.mem_cons_self) hd
  · intro hb
    exact (List.cons_sublist_cons.2 (List.singleton_sublist.2 hb)).trans (List.sublist_append_right front _)

theorem trans (hl : l.Nodup) (hab : Ahead l a b) (hbc : Ahead l b c) : Ahead l a c := by
  obtain ⟨front, back, rfl⟩ := List.append_of_mem hab.mem_left
  obtain ⟨between, back, rfl⟩ := List.append_of_mem ((iff_mem hl).1 hab)
  rw [iff_mem hl]
  have hsplit : front ++ a :: (between ++ b :: back) = (front ++ a :: between) ++ b :: back := by simp
  rw [hsplit] at hl hbc
  have hc : c ∈ back := (iff_mem hl).1 hbc
  simp [hc]

theorem asymm (hl : l.Nodup) (hab : Ahead l a b) : ¬ Ahead l b a := fun hba => irrefl hl (hab.trans hl hba)

end Ahead

/-- What passes from each member to those in front of it holds of a first part of the list and of nothing behind it. -/
theorem exists_append_of_pairwise {α : Type} {P : α → Prop} {l : List α} (h : l.Pairwise fun a b => P b → P a) :
    ∃ front back, l = front ++ back ∧ (∀ a ∈ front, P a) ∧ ∀ a ∈ back, ¬ P a := by
  induction l with
  | nil => exact ⟨[], [], rfl, by simp, by simp⟩
  | cons a l ih =>
      obtain ⟨hfirst, hrest⟩ := List.pairwise_cons.1 h
      by_cases ha : P a
      · obtain ⟨front, back, rfl, hfront, hback⟩ := ih hrest
        exact ⟨a :: front, back, rfl, List.forall_mem_cons.2 ⟨ha, hfront⟩, hback⟩
      · exact ⟨[], a :: l, rfl, by simp, List.forall_mem_cons.2 ⟨ha, fun b hb hPb => ha (hfirst b hb hPb)⟩⟩

/-! ### Lists in order -/

variable {α : Type} [Ord α] [Std.LawfulEqOrd α] {l l' : List α} {a b : α}

theorem nodup_of_ordered (h : l.Pairwise fun a b => compare a b = .lt) : l.Nodup := by
  refine h.imp ?_
  rintro a _ hlt rfl
  simp at hlt

variable [Std.TransOrd α]

/-- Lists in order that have the same members are equal. -/
theorem eq_of_ordered (h : l.Pairwise fun a b => compare a b = .lt) (h' : l'.Pairwise fun a b => compare a b = .lt)
    (hmem : ∀ a, a ∈ l ↔ a ∈ l') : l = l' := by
  have hperm : l.Perm l' := (List.perm_ext_iff_of_nodup (nodup_of_ordered h) (nodup_of_ordered h')).2 hmem
  refine List.Perm.eq_of_pairwise ?_ h h' hperm
  intro a b _ _ hlt hgt
  exact absurd hgt (Std.OrientedCmp.not_lt_of_lt hlt)

theorem ahead_of_ordered (h : l.Pairwise fun a b => compare a b = .lt) (ha : a ∈ l) (hb : b ∈ l)
    (hab : compare a b = .lt) : Ahead l a b := by
  obtain ⟨front, back, rfl⟩ := List.append_of_mem ha
  obtain ⟨_, _, hfront⟩ := List.pairwise_append.1 h
  rw [Ahead.iff_mem (nodup_of_ordered h)]
  rcases List.mem_append.1 hb with hb | hb
  · exact absurd hab (Std.OrientedCmp.not_lt_of_lt (hfront b hb a List.mem_cons_self))
  · rcases List.mem_cons.1 hb with rfl | hb
    · simp at hab
    · exact hb

end ProjectGraph
