import ProjectGraph.Dependency.Edge

/-!
Where edges lead. What is found there does not depend on anything else that an edge asks for.
-/

namespace ProjectGraph

/-- A project, and the name of a configuration there. -/
structure Destination where
  producer : ProjectId
  target : String
  deriving Inhabited

namespace Destination

instance : Ord Destination := ⟨compareLex (compareOn (·.producer.index)) (compareOn target)⟩

instance : Std.TransOrd Destination :=
  inferInstanceAs (Std.TransCmp (compareLex (compareOn fun d : Destination => d.producer.index) (compareOn target)))

instance : Std.LawfulEqOrd Destination where
  compare_self {a} := by
    change compareLex _ _ _ _ = _
    simp [compareLex_eq_eq, compareOn]
  eq_of_compare {a b} h := by
    obtain ⟨⟨i⟩, t⟩ := a
    obtain ⟨⟨j⟩, u⟩ := b
    change compareLex _ _ _ _ = _ at h
    simpa [compareLex_eq_eq, compareOn] using h

end Destination

def Edge.destination (e : Edge) : Destination := ⟨e.producer, e.target⟩

end ProjectGraph
