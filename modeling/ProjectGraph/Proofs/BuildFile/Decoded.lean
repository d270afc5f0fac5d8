import ProjectGraph.BuildFile
import ProjectGraph.Proofs.Loops
import ProjectGraph.Proofs.Path.Written

/-!
What decoding gives. `Gives` says of a decoder, and likewise of a record, that all its values have a property, whatever
the document. Records are put together from their fields, so what they give is put together in the same way, with one
lemma for each way of making a record. In this manner the paths of all projects in a build file are seen to be
paths that can be written.
-/

namespace ProjectGraph

section Gives

variable {α β : Type} {P : α → Prop} {Q : β → Prop}

/-- All values of the decoder have the property. -/
def Decoder.Gives (d : Decoder α) (P : α → Prop) : Prop := ∀ place j a, d place j = .ok a → P a

/-- All values that the record is put together to have the property. -/
def Record.Gives (r : Record α) (P : α → Prop) : Prop :=
  ∀ missing place found a, r.build missing place found = .ok a → P a

theorem Decoder.gives_any (d : Decoder α) : d.Gives fun _ => True := fun _ _ _ _ => trivial

/-! ### Lists -/

theorem gives_decodeItems {decode : Json → Except DecodeError α} (h : ∀ j a, decode j = .ok a → P a)
    {js : List Json} {as : List α} (hok : Json.decodeItems decode js = .ok as) : ∀ a ∈ as, P a := by
  induction js generalizing as with
  | nil =>
      cases hok
      intro a ha
      cases ha
  | cons j js ih =>
      obtain ⟨value, hvalue, hok⟩ := except_bind_eq_ok.1 hok
      obtain ⟨values, hvalues, hok⟩ := except_bind_eq_ok.1 hok
      cases hok
      exact List.forall_mem_cons.2 ⟨h j value hvalue, ih hvalues⟩

theorem Decoder.Gives.list {d : Decoder α} (h : d.Gives P) :
    Decoder.Gives (Json.decodeList d) fun as => ∀ a ∈ as, P a := by
  intro place j as hok
  cases j with
  | array items closed =>
      obtain ⟨values, hvalues, hok⟩ := except_bind_eq_ok.1 hok
      split at hok
      · cases hok
        exact gives_decodeItems (h place.inside) hvalues
      · cases hok
  | _ => cases hok

/-! ### Records -/

namespace Record

theorem gives_required {name : String} {d : Decoder α} (h : d.Gives P) : (required name d).Gives P := by
  intro missing place found a hok
  simp only [required] at hok
  split at hok
  · exact h place _ a hok
  · cases hok

theorem gives_optional {name : String} {d : Decoder α} {absent : α} {aliases : List String} (h : d.Gives P)
    (habsent : P absent) : (optional name d absent aliases).Gives P := by
  intro missing place found a hok
  simp only [optional] at hok
  split at hok
  · exact h place _ a hok
  · cases hok
    exact habsent

theorem Gives.seq {f : Record (α → β)} {r : Record α} (hf : f.Gives fun g => ∀ a, P a → Q (g a)) (hr : r.Gives P) :
    (f <*> r).Gives Q := by
  intro missing place found b hok
  obtain ⟨g, hg, hok⟩ := except_bind_eq_ok.1 hok
  obtain ⟨a, ha, hok⟩ := except_bind_eq_ok.1 hok
  cases hok
  exact hf missing place found g hg a (hr missing place found a ha)

/-- The same where the last field may be anything. -/
theorem Gives.seq_any {f : Record (α → β)} (hf : f.Gives fun g => ∀ a, Q (g a)) (r : Record α) : (f <*> r).Gives Q := by
  have hr : r.Gives fun _ => True := fun _ _ _ _ _ => trivial
  exact Gives.seq (fun missing place found g hg a _ => hf missing place found g hg a) hr

theorem Gives.map {f : α → β} {r : Record α} (hr : r.Gives P) (hf : ∀ a, P a → Q (f a)) : (f <$> r).Gives Q := by
  have hpure : Record.Gives (pure f) fun g => ∀ a, P a → Q (g a) := by
    intro missing place found g hg
    cases hg
    exact hf
  exact hpure.seq hr

theorem Gives.decode {r : Record α} (h : r.Gives P) (type : String) : Decoder.Gives (r.decode type) P := by
  intro place j a hok
  cases j with
  | object entries closed =>
      obtain ⟨found, _, hok⟩ := except_bind_eq_ok.1 hok
      split at hok
      · exact h _ _ found a hok
      · cases hok
  | array items closed =>
      obtain ⟨found, _, hok⟩ := except_bind_eq_ok.1 hok
      split at hok
      · cases hok
      · split at hok
        · exact h _ _ found a hok
        · cases hok
  | _ => cases hok

end Record

end Gives

/-! ### Build files -/

open Record

theorem ProjectPath.gives_decode : Decoder.Gives ProjectPath.decode Written := by
  intro place j p hok
  obtain ⟨raw, _, hok⟩ := except_bind_eq_ok.1 hok
  split at hok
  · rename_i q hq
    cases hok
    exact written_of_parse hq
  · cases hok

/-- What else an entry holds does not matter to its path. -/
theorem ProjectSpec.gives_record : ProjectSpec.record.Gives fun spec => spec.path.Written := by
  have hpath : Gives (ProjectSpec.mk <$> required "path" ProjectPath.decode) fun make =>
      ∀ group version configurations, (make group version configurations).path.Written :=
    (gives_required ProjectPath.gives_decode).map fun path hpath group version configurations => hpath
  exact ((hpath.seq_any _).seq_any _).seq_any _

namespace BuildFile

theorem gives_record : record.Gives fun f => ∀ spec ∈ f.projects, spec.path.Written := by
  refine Gives.seq (Gives.map (gives_required (Decoder.gives_any _)) ?_)
    (gives_optional (ProjectSpec.gives_record.decode "ProjectSpec").list ?_)
  · intro rootName _ projects hprojects
    exact hprojects
  · intro spec hspec
    cases hspec

/-- A build file that was read names its projects by paths that can be written. -/
theorem written_of_parse {text : String} {f : BuildFile} (h : parse text = .ok f) :
    ∀ spec ∈ f.projects, spec.path.Written := by
  unfold parse at h
  split at h
  · rename_i g hg
    cases h
    obtain ⟨value, hvalue, hok⟩ := except_bind_eq_ok.1 hg
    split at hok
    · cases hok
    · cases hok
      exact gives_record.decode "BuildFile" _ _ _ hvalue
  · cases h

end BuildFile

end ProjectGraph
