import ProjectGraph.Path.Project

/-!
Tasks, addressed by their project and their name: `:libs:core:jar`. The name stands behind the last colon,
what stands before it is the path of the project, and nothing before it means the root project.
-/

namespace ProjectGraph

structure TaskPath where
  project : ProjectPath
  name : String
  deriving DecidableEq, Inhabited

/-- What stands before and behind the last `sep`. -/
def cutAtLast (sep : Char) (cs : List Char) : Option (List Char × List Char) :=
  match cs.reverse.dropWhile (· != sep) with
  | [] => none
  | _ :: before => some (before.reverse, (cs.reverse.takeWhile (· != sep)).reverse)

namespace TaskPath

def parse (raw : String) : Except PathFault TaskPath :=
  match cutAtLast ':' raw.toList with
  | none => .error (.notATask raw)
  | some (before, name) =>
    if name.isEmpty then .error (.noTaskName raw)
    else if before.isEmpty then .ok ⟨.root, String.ofList name⟩
    else do
      let project ← ProjectPath.parse (String.ofList before)
      return ⟨project, String.ofList name⟩

/-- The path as it is written. -/
def render (t : TaskPath) : String :=
  (if t.project.isRoot then "" else t.project.render) ++ ":" ++ t.name

/-- By project, then by name. -/
instance : Ord TaskPath := ⟨compareLex (compareOn project) (compareOn name)⟩

instance : Std.TransOrd TaskPath :=
  inferInstanceAs (Std.TransCmp (compareLex (compareOn project) (compareOn name)))

instance : Std.LawfulEqOrd TaskPath where
  compare_self := (inferInstance : Std.ReflCmp (compareLex (compareOn project) (compareOn name))).compare_self
  eq_of_compare {a b} h := by
    cases a; cases b
    obtain ⟨hp, hn⟩ := Ordering.then_eq_eq.1 h
    cases Std.LawfulEqOrd.eq_of_compare (α := ProjectPath) hp
    cases Std.LawfulEqOrd.eq_of_compare (α := String) hn
    rfl

end TaskPath

end ProjectGraph
