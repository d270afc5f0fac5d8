import ProjectGraph.Proofs.Closure.History
import ProjectGraph.Proofs.Worklist.Taken

/-!
How far the walk behind a closure goes. Whatever waits is a seed or lies below a member, so no more is taken up than
there are seeds and things below the members, each counted as often as it was put to the waiting list.
-/

namespace ProjectGraph

namespace Store

variable {s : Store} {transitive : Bool}

/-- The walk behind the closure of an intake takes up these, in this order, and comes to the state `last`, where it ends
as the closure does. -/
def ClosureTakes (s : Store) (i : Intake) (taken : List (Closure × Pending)) (last : Closure) : Prop :=
  Takes (s.closureStep i.transitive) (i.dependencies.map (⟨·, []⟩)) ⟨[], firstOccurrences i.constraints, []⟩ taken last
    (s.closure i)

theorem exists_closureTakes (s : Store) (i : Intake) : ∃ taken last, s.ClosureTakes i taken last :=
  (closure_drains s i).exists_takes

/-- What lies below the members so far. -/
def belowMembers (s : Store) (c : Closure) : Nat := total (fun d => (s.below d).length) c.dependencies

/-- Taking up a dependency brings no more than lies below it. -/
theorem closureStep_paid {c c' : Closure} {p : Pending} {added : List Pending}
    (h : (s.closureStep transitive c p).result = .ok (c', added)) :
    added.length + s.belowMembers c ≤ s.belowMembers c' := by
  rcases closureStep_eq_ok h with ⟨_, rfl, rfl⟩ | ⟨_, y, hy, rfl, rfl⟩
  · exact Nat.le_of_eq (Nat.zero_add _)
  · have hadded : y.below.length ≤ (s.below p.dependency).length := by
      rw [← List.length_map (fun q : Pending => q.dependency)]
      exact (takeUp_below hy).length_le
    simp only [belowMembers, total_append, total]
    omega

/-- The walk behind a closure takes up no more than the seeds, and what the selected configurations of the members
declare or inherit. -/
theorem closure_takes (s : Store) (i : Intake) :
    ∃ taken last, s.ClosureTakes i taken last ∧ (∀ c, (s.closure i).result = .ok c → last = c) ∧
      taken.length ≤ i.dependencies.length + s.belowMembers last ∧
      ∀ e, .project e ∈ last.dependencies →
        ∃ p c, s.Selects e p c ∧ p.container.allDependencies c = .ok (s.below (.project e)) := by
  obtain ⟨taken, last, h⟩ := s.exists_closureTakes i
  refine ⟨taken, last, h, fun c hc => h.last_of_ok hc, ?_, ?_⟩
  · have hcount := Takes.length_le (fun _ => 1) s.belowMembers (fun _ => 0) (fun _ => Nat.le_refl 1)
      (fun c p c' added hstep => by
        have := closureStep_paid hstep
        rw [total_one]
        omega) h
    rwa [total_one, List.length_map, total_zero, Nat.add_zero] at hcount
  · obtain ⟨_, members, hhistory, hmembers⟩ := h.keeps (History.keeps s i.transitive i.dependencies) ⟨[], .start, rfl⟩
    intro e he
    rw [hmembers] at he
    obtain ⟨p, c, above, hsel, habove⟩ := hhistory.resolves_of_mem he
    have hds : p.container.allDependencies c = .ok _ := Container.inherited_eq_ok.2 ⟨above, habove, rfl⟩
    exact ⟨p, c, hsel, by rw [below_eq hsel hds, hds]⟩

end Store

end ProjectGraph
