import ProjectGraph.FirstOccurrences
import Std.Data.TreeSet

/-!
Collections that grow and hold nothing twice, seen as the list of their items in order of first occurrence.
A set beside the list tells whether an item is there, so that neither adding nor asking goes through the list.
What is put together in this way is what `appendNew` puts together.
-/

namespace ProjectGraph

structure Distinct (α : Type) [BEq α] [Ord α] where
  /-- The items, the last one in front. -/
  backwards : List α
  members : Std.TreeSet α
  contains_members : ∀ x, members.contains x = backwards.contains x

namespace Distinct

variable {α : Type} [BEq α] [Ord α]

def toList (d : Distinct α) : List α := d.backwards.reverse

def contains (d : Distinct α) (x : α) : Bool := d.members.contains x

theorem contains_eq (d : Distinct α) (x : α) : d.contains x = d.toList.contains x := by
  rw [contains, d.contains_members, toList, List.contains_reverse]

def empty : Distinct α := ⟨[], ∅, fun _ => rfl⟩

@[simp] theorem toList_empty : (empty : Distinct α).toList = [] := rfl

variable [Std.TransOrd α] [Std.LawfulBEqOrd α]

theorem compare_beq_eq (x y : α) : (compare x y == Ordering.eq) = (y == x) := by
  rw [Bool.eq_iff_iff, beq_iff_eq, ← Std.LawfulBEqOrd.compare_eq_iff_beq]
  exact Std.OrientedCmp.eq_comm

/-- Puts an item to the end, if it is not there. -/
def insert (d : Distinct α) (x : α) : Distinct α :=
  if d.contains x then d
  else ⟨x :: d.backwards, d.members.insert x, fun y => by
    rw [Std.TreeSet.contains_insert, compare_beq_eq, d.contains_members, List.contains_cons]⟩

/-- Puts each item to the end that is not there. -/
def insertAll (d : Distinct α) (items : List α) : Distinct α := items.foldl insert d

/-- Each item once, at its first place. -/
def ofList (items : List α) : Distinct α := empty.insertAll items

@[simp] theorem toList_insert (d : Distinct α) (x : α) :
    (d.insert x).toList = if d.toList.contains x then d.toList else d.toList ++ [x] := by
  rw [insert, contains_eq]
  split
  · rfl
  · simp [toList]

@[simp] theorem toList_insertAll (d : Distinct α) (items : List α) :
    (d.insertAll items).toList = appendNew d.toList items := by
  induction items generalizing d with
  | nil => rfl
  | cons x xs ih =>
    rw [appendNew_cons, ← toList_insert, ← ih]
    rfl

@[simp] theorem toList_ofList (items : List α) : (ofList items).toList = firstOccurrences items :=
  toList_insertAll _ _

theorem contains_insert_of_contains {d : Distinct α} {y : α} (h : d.contains y) (x : α) :
    (d.insert x).contains y := by
  rw [insert]
  split
  · exact h
  · change (d.members.insert x).contains y
    rw [Std.TreeSet.contains_insert]
    exact Bool.or_eq_true_iff.2 (Or.inr h)

theorem contains_insert_self (d : Distinct α) (x : α) : (d.insert x).contains x := by
  rw [insert]
  split
  · assumption
  · exact Std.TreeSet.contains_insert_self

end Distinct

end ProjectGraph
