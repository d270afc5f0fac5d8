import ProjectGraph.Dependency

/-!
An order on dependencies and constraints, so that sets of them can be searched. In it two of them are equal
exactly if they are the same (`==`); which comes first means nothing.
-/

namespace ProjectGraph

theorem lawfulEqOrd_of_iff {α : Type} [Ord α] (h : ∀ a b : α, compare a b = .eq ↔ a = b) :
    Std.LawfulEqOrd α where
  compare_self := (h _ _).2 rfl
  eq_of_compare := (h _ _).1

namespace Capability

instance : Ord Capability := ⟨compareLex (compareOn group) (compareLex (compareOn name) (compareOn version))⟩

instance : Std.TransOrd Capability :=
  inferInstanceAs (Std.TransCmp
    (compareLex (compareOn group) (compareLex (compareOn name) (compareOn version))))

instance : Std.LawfulEqOrd Capability := lawfulEqOrd_of_iff fun a b => by
  cases a; cases b
  change compareLex _ _ _ _ = _ ↔ _
  simp [compareLex_eq_eq, compareOn]

end Capability

namespace ExcludeRule

instance : Ord ExcludeRule := ⟨compareLex (compareOn group) (compareOn ExcludeRule.module)⟩

instance : Std.TransOrd ExcludeRule :=
  inferInstanceAs (Std.TransCmp (compareLex (compareOn group) (compareOn ExcludeRule.module)))

instance : Std.LawfulEqOrd ExcludeRule := lawfulEqOrd_of_iff fun a b => by
  cases a; cases b
  change compareLex _ _ _ _ = _ ↔ _
  simp [compareLex_eq_eq, compareOn]

end ExcludeRule

namespace Request

instance : Ord Request :=
  ⟨compareLex (compareOn targetConfiguration) (compareLex (compareOn transitive)
    (compareLex (compareOn attributes) (compareLex (compareOn capabilities) (compareOn excludes))))⟩

instance : Std.TransOrd Request :=
  inferInstanceAs (Std.TransCmp (compareLex (compareOn targetConfiguration)
    (compareLex (compareOn transitive) (compareLex (compareOn attributes)
      (compareLex (compareOn capabilities) (compareOn excludes))))))

instance : Std.LawfulEqOrd Request := lawfulEqOrd_of_iff fun a b => by
  cases a; cases b
  change compareLex _ _ _ _ = _ ↔ _
  simp [compareLex_eq_eq, compareOn]

end Request

namespace ModuleDependency

instance : Ord ModuleDependency :=
  ⟨compareLex (compareOn group) (compareLex (compareOn name) (compareLex (compareOn version)
    (compareOn request)))⟩

instance : Std.TransOrd ModuleDependency :=
  inferInstanceAs (Std.TransCmp (compareLex (compareOn group) (compareLex (compareOn name)
    (compareLex (compareOn version) (compareOn request)))))

instance : Std.LawfulEqOrd ModuleDependency := lawfulEqOrd_of_iff fun a b => by
  cases a; cases b
  change compareLex _ _ _ _ = _ ↔ _
  simp [compareLex_eq_eq, compareOn]

end ModuleDependency

namespace Constraint

instance : Ord Constraint :=
  ⟨compareLex (compareOn group) (compareLex (compareOn name) (compareLex (compareOn version)
    (compareOn reason)))⟩

instance : Std.TransOrd Constraint :=
  inferInstanceAs (Std.TransCmp (compareLex (compareOn group) (compareLex (compareOn name)
    (compareLex (compareOn version) (compareOn reason)))))

instance : Std.LawfulEqOrd Constraint := lawfulEqOrd_of_iff fun a b => by
  cases a; cases b
  change compareLex _ _ _ _ = _ ↔ _
  simp [compareLex_eq_eq, compareOn]

instance : Std.LawfulBEqOrd Constraint where
  compare_eq_iff_beq := Std.LawfulEqCmp.compare_eq_iff_eq.trans beq_iff_eq.symm

end Constraint

namespace Edge

/-- By what belongs to the identity of an edge. -/
instance : Ord Edge :=
  ⟨compareLex (compareOn path) (compareLex (compareOn (·.request.targetConfiguration))
    (compareLex (compareOn buildsProducer) (compareLex (compareOn (·.request.attributes))
      (compareOn (·.request.capabilities)))))⟩

instance : Std.TransOrd Edge :=
  inferInstanceAs (Std.TransCmp (compareLex (compareOn path)
    (compareLex (compareOn fun e : Edge => e.request.targetConfiguration)
      (compareLex (compareOn buildsProducer) (compareLex (compareOn fun e : Edge => e.request.attributes)
        (compareOn fun e : Edge => e.request.capabilities))))))

instance : Std.LawfulBEqOrd Edge where
  compare_eq_iff_beq {a b} := by
    change compareLex _ _ _ _ = _ ↔ _
    simp [compareLex_eq_eq, compareOn, beq_iff, identity]

end Edge

namespace Dependency

def module? : Dependency → Option ModuleDependency
  | .module m => some m
  | .project _ => none

/-- Modules come first. -/
instance : Ord Dependency := ⟨compareLex (compareOn edge?) (compareOn module?)⟩

instance : Std.TransOrd Dependency :=
  inferInstanceAs (Std.TransCmp (compareLex (compareOn edge?) (compareOn module?)))

instance : Std.LawfulBEqOrd Dependency where
  compare_eq_iff_beq {a b} := by
    change compareLex _ _ _ _ = _ ↔ _
    have he (x y : Edge) : compare (some x) (some y) = compare x y := rfl
    have hm (x y : ModuleDependency) : compare (some x) (some y) = compare x y := rfl
    cases a <;> cases b <;>
      simp [compareLex_eq_eq, compareOn, edge?, module?, he, hm, Std.LawfulBEqCmp.compare_eq_iff_beq]

end Dependency

end ProjectGraph
