/-!
The potential of a walk that takes up each thing at most once: the weights of what it has not seen yet,
summed over a finite base. Taking up one thing of the base lowers the potential by at least its weight,
and seeing more never raises it. A walk whose waiting list grows by no more than that weight ends.
-/

namespace ProjectGraph

variable {α : Type}

/-- The weights of all members. -/
def total (weight : α → Nat) : List α → Nat
  | [] => 0
  | x :: xs => weight x + total weight xs

/-- The weights of the members of the base that are not seen. -/
def potential (weight : α → Nat) (seen : α → Bool) : List α → Nat
  | [] => 0
  | x :: xs => (if seen x then 0 else weight x) + potential weight seen xs

theorem potential_le (weight : α → Nat) {seen later : α → Bool}
    (mono : ∀ x, seen x = true → later x = true) (base : List α) :
    potential weight later base ≤ potential weight seen base := by
  induction base with
  | nil => exact Nat.le_refl _
  | cons x xs ih =>
    simp only [potential]
    cases h : seen x with
    | true => simpa [mono x h] using ih
    | false =>
      have : (if later x then 0 else weight x) ≤ weight x := by split <;> omega
      simp only [Bool.false_eq_true, if_false]
      omega

/-- Taking up `a` pays for the weight of `a`. -/
theorem potential_add_le (weight : α → Nat) (seen later : α → Bool)
    (mono : ∀ x, seen x = true → later x = true) {base : List α} {a : α} (ha : a ∈ base)
    (before : seen a = false) (after : later a = true) :
    potential weight later base + weight a ≤ potential weight seen base := by
  induction base with
  | nil => cases ha
  | cons x xs ih =>
    simp only [potential]
    rcases List.mem_cons.1 ha with rfl | ha
    · have := potential_le weight mono xs
      simp only [before, after]
      simp
      omega
    · have := ih ha
      cases h : seen x with
      | true => simpa [mono x h] using this
      | false =>
        have : (if later x then 0 else weight x) ≤ weight x := by split <;> omega
        simp only [Bool.false_eq_true, if_false]
        omega

end ProjectGraph
