import Std.Data.DTreeMap

/-!
Answers that are kept. A walk asks the same question many times over, while what it asks about stays as it is.
A kept answer carries the proof that it is the answer, so asking gives the same with and without it.
-/

namespace ProjectGraph

/-- Values of a function that were worked out before. -/
abbrev Answers {κ β : Type} [Ord κ] (f : κ → β) : Type := Std.DTreeMap κ fun k => { b // b = f k }

namespace Answers

variable {κ β : Type} [Ord κ] [Std.LawfulEqOrd κ] {f : κ → β}

/-- The value at a key, and the answers with this one among them. -/
def ask (answers : Answers f) (key : κ) : { b // b = f key } × Answers f :=
  match answers.get? key with
  | some answer => (answer, answers)
  | none =>
    let answer := ⟨f key, rfl⟩
    (answer, answers.insert key answer)

end Answers

end ProjectGraph
