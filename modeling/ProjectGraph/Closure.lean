import ProjectGraph.Closure.Yield
import ProjectGraph.Dependency.Order
import ProjectGraph.Distinct
import ProjectGraph.Queue

/-!
The closure of dependencies: everything that is reached from the seeds, breadth first, each dependency once
and as it was first reached. Edges are expanded as they are taken up, under the exclude rules in force
there: those of the edge and of all edges above it. Seeds are never excluded. Modules are kept but not
looked into.

The walk ends because taking up a dependency puts no more to the waiting list than its target declares or
inherits, and each dependency of the build is taken up at most once.
-/

namespace ProjectGraph

/-- Everything that was reached, in the order in which it was first reached. -/
structure Closure where
  dependencies : List Dependency
  constraints : List Constraint
  /-- The files of all configurations that were reached. -/
  files : List FilePath
  deriving Inhabited

namespace Store

/-- What the walk has reached and found out. -/
structure Reached (s : Store) where
  dependencies : Distinct Dependency
  constraints : Distinct Constraint
  files : Distinct FilePath
  answers : OfferAnswers s

namespace Reached

variable {s : Store}

def closure (r : Reached s) : Closure := ⟨r.dependencies.toList, r.constraints.toList, r.files.toList⟩

/-- The same with a dependency that was taken up, and what it brought. -/
def add (r : Reached s) (d : Dependency) (y : Yield) (answers : OfferAnswers s) : Reached s where
  dependencies := r.dependencies.insert d
  constraints := r.constraints.insertAll y.constraints
  files := r.files.insertAll y.files
  answers := answers

end Reached

/-- What taking up a dependency may put to the waiting list, and one for the dependency itself. -/
def takeUpCost (s : Store) (d : Dependency) : Nat := 1 + (s.below d).length

/--
Takes up what waits, in order, until nothing waits. `base` holds all that can ever wait.
-/
def walk (s : Store) (transitive : Bool) (base : List Dependency) (closed : ∀ d ∈ s.declared, d ∈ base)
    (queue : Queue Pending) (within : ∀ p ∈ queue.toList, p.dependency ∈ base) (reached : Reached s) :
    Reporting Closure :=
  match _next : queue.next? with
  | none => pure reached.closure
  | some (p, rest) =>
    if _new : reached.dependencies.contains p.dependency then
      s.walk transitive base closed rest (fun q hq => within q (Queue.mem_of_mem_rest _next hq)) reached
    else
      let (taken, answers) := reached.answers.takeUp transitive p
      match _taken : taken.val with
      | ⟨notices, .error x⟩ => ⟨notices, .error x⟩
      | ⟨notices, .ok y⟩ =>
        (s.walk transitive base closed (rest.append y.below)
          (fun q hq => by
            rw [Queue.toList_append] at hq
            rcases List.mem_append.1 hq with hq | hq
            · exact within q (Queue.mem_of_mem_rest _next hq)
            · have hsub := takeUp_below (congrArg Reporting.result (taken.property.symm.trans _taken))
              exact closed _ (mem_declared_of_mem_below
                (hsub.subset (List.mem_map_of_mem hq))))
          (reached.add p.dependency y answers)).after notices
termination_by potential s.takeUpCost reached.dependencies.contains base + queue.toList.length
decreasing_by
  · simp only [Queue.toList_of_next? _next, List.length_cons]; omega
  · have hsub := (takeUp_below (congrArg Reporting.result (taken.property.symm.trans _taken))).length_le
    have := potential_add_le s.takeUpCost reached.dependencies.contains
      (reached.dependencies.insert p.dependency).contains
      (fun d h => Distinct.contains_insert_of_contains h _) (within p (Queue.mem_of_next? _next))
      (Bool.eq_false_iff.2 _new) (Distinct.contains_insert_self ..)
    simp only [Queue.toList_of_next? _next, Queue.toList_append, Reached.add, takeUpCost, List.length_map,
      List.length_append, List.length_cons] at this hsub ⊢
    omega

/-- The closure of what an intake holds. Constraints it holds come first. -/
def closure (s : Store) (i : Intake) : Reporting Closure :=
  s.walk i.transitive (i.dependencies ++ s.declared) (fun _ h => List.mem_append_right _ h)
    (.ofList (i.dependencies.map fun d => ⟨d, []⟩))
    (fun p hp => by
      rw [Queue.toList_ofList] at hp
      obtain ⟨d, hd, rfl⟩ := List.mem_map.1 hp
      exact List.mem_append_left _ hd)
    ⟨.empty, .ofList i.constraints, .empty, ∅⟩

end Store

end ProjectGraph
