import ProjectGraph.DirectUse
import ProjectGraph.Proofs.Closure.Failures

/-!
The notices of a closure. A dependency is looked up when it becomes a member and at no other time: its expansion goes by
what was selected then, and what comes up again is dropped. So a closure raises one notice for each of its edges that
selects a deprecated target, in its own order, and no others. One that fails has raised those of all that it took up
before. The edge at which it fails raises its own if it selects something, which then has no hierarchy.

The files of an edge are those of the closure that starts with it; asking for them raises one notice first.
-/

namespace ProjectGraph

namespace Store

variable {s : Store} {i : Intake}

theorem notices_of_closure {c : Closure} (h : (s.closure i).result = .ok c) :
    (s.closure i).notices = c.dependencies.filterMap s.noticeOf :=
  ((closure_drains s i).ok_account (History.keepsAccount s i.transitive i.dependencies) []
    ⟨⟨[], .start, rfl⟩, rfl⟩ h).2

/-- The files of an edge whose producer is there are found by the walk over the edge alone. -/
theorem resolveFiles_eq {e : Edge} {p : Project} (hp : s.project? e.producer = some p) (transitive : Bool) :
    s.resolveFiles e transitive =
      ⟨⟨p.reporter, .directResolution⟩ :: (s.closure ((Intake.empty transitive).addDependencies [.project e])).notices,
        (s.closure ((Intake.empty transitive).addDependencies [.project e])).result.map (·.files)⟩ := by
  rw [resolveFiles, producer_eq_ok.2 hp]
  generalize s.closure ((Intake.empty transitive).addDependencies [.project e]) = walk
  obtain ⟨notices, result⟩ := walk
  cases result <;> simp [Reporting.ofExcept, Reporting.raise, Reporting.after, Except.map]

/-- A closure raises a notice for each of its edges that selects a deprecated target, each once and in its own
order. One that fails stops at an edge of the breadth-first order: the edges in front of it have raised theirs, and
it has raised its own if it selects something. The files of an edge are those of its own walk, behind one more
notice. -/
theorem closure_notices (s : Store) (i : Intake) :
    (∀ c, (s.closure i).result = .ok c →
      (s.closure i).notices = c.dependencies.filterMap s.noticeOf ∧
      c.dependencies.Pairwise (fun d d' => (d' == d) = false) ∧
      ∀ e, .project e ∈ c.dependencies → ∃ p k, s.Selects e p k ∧ s.noticeOf (.project e) =
        k.consumptionDeprecation.map fun replacements => ⟨p.reporter, .consumption k.name replacements⟩) ∧
    (∀ x, (s.closure i).result = .error x → ∃ order front e back,
      InOrder s i.transitive i.dependencies order [] ∧ order.map (·.dependency) = front ++ .project e :: back ∧
      (∀ e', .project e' ∈ front → ∃ p k, s.Selects e' p k ∧ s.noticeOf (.project e') =
        k.consumptionDeprecation.map fun replacements => ⟨p.reporter, .consumption k.name replacements⟩) ∧
      (s.NotSelected e x ∧ (s.closure i).notices = front.filterMap s.noticeOf ∨
        ∃ p k, s.Selects e p k ∧ p.container.hierarchy k = .error x ∧
          (s.closure i).notices = front.filterMap s.noticeOf ++ consumptionNotices p.reporter k)) ∧
    ∀ e p transitive, s.project? e.producer = some p →
      let walk := s.closure ((Intake.empty transitive).addDependencies [.project e])
      s.resolveFiles e transitive =
        ⟨⟨p.reporter, .directResolution⟩ :: walk.notices, walk.result.map (·.files)⟩ := by
  refine ⟨fun c hc => ?_, fun x hx => ?_, fun e p transitive hp => resolveFiles_eq hp transitive⟩
  · obtain ⟨members, hhistory, hmembers⟩ := history_of_closure hc
    refine ⟨notices_of_closure hc, ?_, fun e he => ?_⟩
    · rw [hmembers, hhistory.map_dependency_eq]
      exact pairwise_firstOccurrences _
    · rw [hmembers] at he
      obtain ⟨p, k, _, hsel, _⟩ := hhistory.resolves_of_mem he
      exact ⟨p, k, hsel, hsel.noticeOf_eq⟩
  · obtain ⟨order, front, e, back, horder, hsplit, hfront, hfails, hnotices⟩ := closure_stops hx
    refine ⟨order, front, e, back, horder, hsplit, fun e' he' => ?_, ?_⟩
    · -- An edge in front leads somewhere.
      have hleads : ¬ s.Fails e' := fun h => by
        obtain ⟨y, hy⟩ := fails_iff_failsWith.1 h
        exact hfront e' y he' hy
      obtain ⟨p, k, _, hsel, _⟩ := not_fails_iff.1 hleads
      exact ⟨p, k, hsel, hsel.noticeOf_eq⟩
    · rw [← notices_select] at hnotices
      rcases hfails with hnot | ⟨hsel, hhierarchy⟩
      · rw [hnot.select_eq] at hnotices
        exact Or.inl ⟨hnot, hnotices.trans (List.append_nil _)⟩
      · rw [hsel.select_eq] at hnotices
        exact Or.inr ⟨_, _, hsel, hhierarchy, hnotices⟩

end Store

namespace Build

/-- The offer of the library is deprecated, and so is what extends itself there. The application needs the library
twice, once without what this one needs. -/
def phasedOut : Build :=
  let b := ((start .empty "shop" ⟨0⟩).addProject ⟨["lib"]⟩).1
  let b := (b.addProject ⟨["app"]⟩).1
  let b := b.declare ⟨1⟩ { jarOf "lib" [.project (offerOf 2 "app")] with consumptionDeprecation := some ["api"] }
  let b := b.declare ⟨1⟩ { Declaration.named "knot" with extendsFrom := ["knot"], consumptionDeprecation := some [] }
  b.declare ⟨2⟩ (jarOf "app" [.project (offerOf 1 "lib"), .project ((offerOf 1 "lib").setTransitive false)])

def offerNotice : Raised := ⟨⟨0⟩, .consumption "default" ["api"]⟩

/-- The library is reached twice and raises its notice once. Where the walk fails at what extends itself, this has
raised its own notice behind that of the library. -/
theorem closure_notices_phasedOut :
    let intact := (Intake.empty true).addDependencies [.project (offerOf 2 "app")]
    let broken := (Intake.empty true).addDependencies [.project (offerOf 1 "lib"), .project (edgeTo 1 "lib" "knot")]
    (∃ c, (phasedOut.store.closure intact).result = .ok c ∧
      c.dependencies = [.project (offerOf 2 "app"), .project (offerOf 1 "lib")] ∧
      (phasedOut.store.closure intact).notices = c.dependencies.filterMap phasedOut.store.noticeOf ∧
      (phasedOut.store.closure intact).notices = [offerNotice]) ∧
    (∃ (front : List Dependency) (p : Project) (k : Configuration),
      p.container.hierarchy k = .error (.configurationCycle "project ':lib'" "knot") ∧
      (phasedOut.store.closure broken).notices =
        front.filterMap phasedOut.store.noticeOf ++ Store.consumptionNotices p.reporter k ∧
      (phasedOut.store.closure broken).notices = [offerNotice, ⟨⟨0⟩, .consumption "knot" []⟩]) ∧
    (phasedOut.store.resolveFiles (offerOf 2 "app") true).notices = [⟨⟨0⟩, .directResolution⟩, offerNotice] := by
  intro intact broken
  have hraised : (phasedOut.store.closure intact).notices = [offerNotice] := by decide +kernel
  obtain ⟨hcloses, _, hfiles⟩ := Store.closure_notices phasedOut.store intact
  refine ⟨?_, ?_, ?_⟩
  · have hwalk : (phasedOut.store.closure intact).result.toOption.map (·.dependencies) =
        some [.project (offerOf 2 "app"), .project (offerOf 1 "lib")] := by
      decide +kernel
    obtain ⟨c, hok, hc⟩ := exists_eq_ok hwalk
    exact ⟨c, hok, hc, (hcloses c hok).1, hraised⟩
  · have hfails : (phasedOut.store.closure broken).result = .error (.configurationCycle "project ':lib'" "knot") :=
      Container.eq_error_of_failure? (by decide +kernel)
    obtain ⟨_, hstops, _⟩ := Store.closure_notices phasedOut.store broken
    obtain ⟨_, front, e, _, _, _, _, ⟨hnot, _⟩ | ⟨p, k, _, hhierarchy, hnotices⟩⟩ := hstops _ hfails
    · cases hnot
    · exact ⟨front, p, k, hhierarchy, hnotices, by decide +kernel⟩
  · have happ : (phasedOut.store.project? ⟨2⟩).map (·.reporter) = some ⟨0⟩ := by decide +kernel
    obtain ⟨p, hp, hreporter⟩ := Option.map_eq_some_iff.1 happ
    have hnotices := congrArg Reporting.notices (hfiles (offerOf 2 "app") p true hp)
    rw [hnotices, hreporter]
    exact congrArg _ hraised

end Build

end ProjectGraph
