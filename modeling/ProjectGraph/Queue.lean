/-!
Queues: first in, first out. A queue is seen as the list of what waits, the next one in front. What comes in
goes to a second list, the last one in front, which is turned round when the first one is used up, so that
neither putting nor taking looks at what waits in between.
-/

namespace ProjectGraph

structure Queue (α : Type) where
  front : List α
  /-- What waits behind `front`, the last one in front. -/
  back : List α

namespace Queue

variable {α : Type}

/-- What waits, in order. -/
def toList (q : Queue α) : List α := q.front ++ q.back.reverse

def ofList (items : List α) : Queue α := ⟨items, []⟩

/-- Puts items behind all that waits. -/
def append (q : Queue α) (items : List α) : Queue α := { q with back := items.reverse ++ q.back }

/-- The next one, and what waits behind it. -/
def next? (q : Queue α) : Option (α × Queue α) :=
  match q.front with
  | a :: front => some (a, { q with front })
  | [] =>
    match q.back.reverse with
    | a :: front => some (a, .ofList front)
    | [] => none

@[simp] theorem toList_ofList (items : List α) : (ofList items).toList = items := by
  simp [ofList, toList]

@[simp] theorem toList_append (q : Queue α) (items : List α) :
    (q.append items).toList = q.toList ++ items := by
  simp [append, toList]

theorem next?_eq_none {q : Queue α} : q.next? = none ↔ q.toList = [] := by
  obtain ⟨front, back⟩ := q
  cases front with
  | cons a front => simp [next?, toList]
  | nil => cases h : back.reverse <;> simp [next?, toList, h]

theorem toList_of_next? {q rest : Queue α} {a : α} (h : q.next? = some (a, rest)) :
    q.toList = a :: rest.toList := by
  obtain ⟨front, back⟩ := q
  cases front with
  | cons b front =>
    cases h
    rfl
  | nil =>
    cases hb : back.reverse with
    | nil => simp [next?, hb] at h
    | cons b front =>
      simp only [next?, hb, Option.some.injEq, Prod.mk.injEq] at h
      obtain ⟨rfl, rfl⟩ := h
      simp [toList, ofList, hb]

/-- The next one was waiting. -/
theorem mem_of_next? {q rest : Queue α} {a : α} (h : q.next? = some (a, rest)) : a ∈ q.toList := by
  rw [toList_of_next? h]
  exact List.mem_cons_self

/-- What waits behind the next one was waiting. -/
theorem mem_of_mem_rest {q rest : Queue α} {a b : α} (h : q.next? = some (a, rest)) (hb : b ∈ rest.toList) :
    b ∈ q.toList := by
  rw [toList_of_next? h]
  exact List.mem_cons_of_mem _ hb

end Queue

end ProjectGraph
