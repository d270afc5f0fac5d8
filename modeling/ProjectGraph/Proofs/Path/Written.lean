import ProjectGraph.BuildTree
import ProjectGraph.Path.Task
import ProjectGraph.Proofs.Loops
import Mathlib.Data.List.TakeWhile

/-!
Paths that can be written. A path is written as its segments, each with a colon in front; read back, the text is cut
at the colons. So the segments come out again if none is empty or holds a colon, and the path is read back if none is
blank somewhere, either (`parse_render_of_separable`). What reading gives can be written and is written as it was, so
the texts that are read are those that are written; all paths on the way down to it can be written, too. A path of a
task has one more part behind the last colon, which may be anything without a colon but not nothing.
-/

namespace ProjectGraph

/-! ### Texts with colons in between -/

/-- A text that may stand between colons. -/
def BetweenColons (s : String) : Prop := s ≠ "" ∧ ':' ∉ s.toList

theorem splitOn_intercalate_toList {pieces : List String} (hsome : pieces ≠ []) (h : ∀ s ∈ pieces, ':' ∉ s.toList) :
    ([':'].intercalate (pieces.map String.toList)).splitOn ':' = pieces.map String.toList := by
  refine List.splitOn_intercalate ':' ?_ (by simpa using hsome)
  intro piece hpiece
  obtain ⟨s, hs, rfl⟩ := List.mem_map.1 hpiece
  exact h s hs

namespace ProjectPath

/-! ### Segments -/

theorem isSegment_iff {s : String} : isSegment s.toList = true ↔ s ≠ "" ∧ ∀ c ∈ s.toList, isBlank c = false := by
  simp [isSegment]

/-- Each segment is one that can stand between colons. -/
def Written (p : ProjectPath) : Prop := ∀ s ∈ p.segments, isSegment s.toList = true ∧ ':' ∉ s.toList

theorem written_root : root.Written := by
  intro s hs
  cases hs

/-! ### What reading gives -/

theorem not_mem_of_mem_splitOn {sep : Char} {cs piece : List Char} (h : piece ∈ cs.splitOn sep) : sep ∉ piece := by
  induction cs generalizing piece with
  | nil =>
      rw [List.splitOn_nil, List.mem_singleton] at h
      rw [h]
      exact List.not_mem_nil
  | cons c cs ih =>
      rw [List.splitOn_cons_eq_if_modifyHead] at h
      split at h
      · rcases List.mem_cons.1 h with rfl | h
        · exact List.not_mem_nil
        · exact ih h
      · rename_i hc
        have hne : sep ≠ c := by
          rintro rfl
          exact hc BEq.rfl
        -- Only the first piece has grown, by a character that is none of the separators.
        cases hpieces : cs.splitOn sep with
        | nil => exact absurd hpieces (List.splitOn_ne_nil sep cs)
        | cons first others =>
            rw [hpieces, List.modifyHead_cons] at h
            rcases List.mem_cons.1 h with rfl | h
            · have hfirst : sep ∉ first := ih (by rw [hpieces]; exact List.mem_cons_self)
              exact List.not_mem_cons_of_ne_of_not_mem hne hfirst
            · exact ih (by rw [hpieces]; exact List.mem_cons_of_mem _ h)

theorem written_of_parse {raw : String} {p : ProjectPath} (h : parse raw = .ok p) : p.Written := by
  unfold parse at h
  split at h
  · rename_i rest hraw
    split at h
    · cases h
      exact written_root
    · simp only at h
      split at h
      · rename_i hsegments
        cases h
        intro s hs
        obtain ⟨piece, hpiece, rfl⟩ := List.mem_map.1 hs
        rw [String.toList_ofList]
        exact ⟨List.all_eq_true.1 hsegments piece hpiece, not_mem_of_mem_splitOn hpiece⟩
      · cases h
  · cases h

/-! ### What is written -/

theorem toList_foldl_segments (segments : List String) (text : String) :
    (segments.foldl (fun text s => text ++ ":" ++ s) text).toList =
      text.toList ++ segments.flatMap fun s => ':' :: s.toList := by
  induction segments generalizing text with
  | nil => simp
  | cons s segments ih =>
      rw [List.foldl_cons, ih, List.flatMap_cons]
      simp

theorem toList_render {segments : List String} (h : segments ≠ []) :
    (render ⟨segments⟩).toList = segments.flatMap fun s => ':' :: s.toList := by
  rw [render, if_neg (by simpa using h), toList_foldl_segments]
  simp

theorem flatMap_eq_intercalate (s : String) (segments : List String) :
    (s :: segments).flatMap (fun s => ':' :: s.toList) =
      ':' :: [':'].intercalate ((s :: segments).map String.toList) := by
  induction segments generalizing s with
  | nil => simp
  | cons t segments ih =>
      rw [List.flatMap_cons, ih]
      simp only [List.map_cons, List.intercalate_cons_cons]
      simp

/-- No segment is empty or holds a colon: what is written can be cut into the segments again. -/
def Separable (p : ProjectPath) : Prop := ∀ s ∈ p.segments, BetweenColons s

theorem Written.separable {p : ProjectPath} (h : p.Written) : p.Separable := by
  intro s hs
  refine ⟨?_, (h s hs).2⟩
  rintro rfl
  cases (h "" hs).1

/-- Segments without colons are what stands between the colons. -/
theorem splitOn_render {s : String} {segments : List String} (h : ∀ t ∈ s :: segments, ':' ∉ t.toList) :
    ∃ rest, (render ⟨s :: segments⟩).toList = ':' :: rest ∧ rest.splitOn ':' = (s :: segments).map String.toList := by
  refine ⟨[':'].intercalate ((s :: segments).map String.toList), ?_, splitOn_intercalate_toList (by simp) h⟩
  rw [← flatMap_eq_intercalate]
  exact toList_foldl_segments (s :: segments) ""

/-- A separable path is read back as far as its segments may be read. -/
theorem parse_render_of_separable {p : ProjectPath} (h : p.Separable) :
    parse p.render =
      if p.segments.all (isSegment ·.toList) then .ok p else .error (.badSegment p.render) := by
  obtain ⟨segments⟩ := p
  cases segments with
  | nil => rfl
  | cons s segments =>
      obtain ⟨rest, htext, hpieces⟩ := splitOn_render fun t ht => (h t ht).2
      have hfull : rest.isEmpty = false := by
        -- Nothing behind the colon would make one empty piece.
        rw [Bool.eq_false_iff]
        intro hempty
        rw [List.isEmpty_iff.1 hempty, List.splitOn_nil, List.map_cons] at hpieces
        have hs := (List.cons.inj hpieces).1
        exact (h s List.mem_cons_self).1 (String.toList_eq_nil_iff.1 hs.symm)
      have hback : ((s :: segments).map String.toList).map String.ofList = s :: segments := by
        rw [List.map_map]
        simp [Function.comp_def]
      rw [parse, htext]
      simp only [hfull, hpieces, hback, List.all_map, Bool.false_eq_true, if_false]
      rfl

/-- A written path is read back. -/
theorem parse_render {p : ProjectPath} (h : p.Written) : parse p.render = .ok p := by
  rw [parse_render_of_separable h.separable, if_pos]
  exact List.all_eq_true.2 fun s hs => (h s hs).1

/-- What is read is written as it was. -/
theorem render_of_parse {raw : String} {p : ProjectPath} (h : parse raw = .ok p) : p.render = raw := by
  unfold parse at h
  split at h
  · rename_i rest hraw
    split at h
    · rename_i hempty
      cases h
      rw [List.isEmpty_iff.1 hempty] at hraw
      exact (String.toList_inj.1 hraw).symm
    · simp only at h
      split at h
      · cases h
        cases hpieces : rest.splitOn ':' with
        | nil => exact absurd hpieces (List.splitOn_ne_nil ':' rest)
        | cons piece pieces =>
            apply String.toList_inj.1
            calc (render ⟨(piece :: pieces).map String.ofList⟩).toList
                = ((piece :: pieces).map String.ofList).flatMap fun s => ':' :: s.toList :=
                  toList_foldl_segments ((piece :: pieces).map String.ofList) ""
              _ = ':' :: [':'].intercalate (piece :: pieces) := by
                  rw [List.map_cons, flatMap_eq_intercalate]
                  simp [Function.comp_def]
              _ = raw.toList := by rw [← hpieces, List.intercalate_splitOn, hraw]
      · cases h
  · cases h

/-- The texts that are read are those that are written. -/
theorem parse_eq_ok_iff {raw : String} {p : ProjectPath} : parse raw = .ok p ↔ p.Written ∧ p.render = raw := by
  constructor
  · intro h
    exact ⟨written_of_parse h, render_of_parse h⟩
  · rintro ⟨h, rfl⟩
    exact parse_render h

/-! ### The way down -/

theorem segments_of_mem_descentFrom {above below : List String} {step : ProjectPath × String}
    (h : step ∈ descentFrom above below) : ∀ s ∈ step.1.segments, s ∈ above ∨ s ∈ below := by
  induction below generalizing above with
  | nil => cases h
  | cons t below ih =>
      rcases List.mem_cons.1 h with rfl | h
      · intro s hs
        simp only [List.mem_reverse, List.mem_cons] at hs
        rcases hs with rfl | hs
        · exact Or.inr List.mem_cons_self
        · exact Or.inl hs
      · intro s hs
        rcases ih h s hs with hs | hs
        · rcases List.mem_cons.1 hs with rfl | hs
          · exact Or.inr List.mem_cons_self
          · exact Or.inl hs
        · exact Or.inr (List.mem_cons_of_mem _ hs)

theorem Written.descent {p : ProjectPath} (h : p.Written) {step : ProjectPath × String} (hstep : step ∈ p.descent) :
    step.1.Written := by
  intro s hs
  rcases segments_of_mem_descentFrom hstep s hs with hs | hs
  · cases hs
  · exact h s hs

end ProjectPath

/-! ### Paths of tasks -/

theorem cutAtLast_append {sep : Char} {name : List Char} (h : sep ∉ name) (before : List Char) :
    cutAtLast sep (before ++ sep :: name) = some (before, name) := by
  have hname : ∀ c ∈ name.reverse, (c != sep) = true := by
    intro c hc
    rw [bne_iff_ne]
    rintro rfl
    exact h (List.mem_reverse.1 hc)
  have hreverse : (before ++ sep :: name).reverse = name.reverse ++ sep :: before.reverse := by simp
  rw [cutAtLast, hreverse, List.dropWhile_append_of_pos hname, List.takeWhile_append_of_pos hname]
  simp

theorem not_mem_of_cutAtLast {sep : Char} {cs before name : List Char} (h : cutAtLast sep cs = some (before, name)) :
    sep ∉ name := by
  unfold cutAtLast at h
  split at h
  · cases h
  · cases h
    intro hmem
    have hne := List.mem_takeWhile_imp (List.mem_reverse.1 hmem)
    simp at hne

theorem append_of_cutAtLast {sep : Char} {cs before name : List Char} (h : cutAtLast sep cs = some (before, name)) :
    cs = before ++ sep :: name := by
  have hsplit := List.takeWhile_append_dropWhile (p := (· != sep)) (l := cs.reverse)
  unfold cutAtLast at h
  split at h
  · cases h
  · rename_i last front hdrop
    cases h
    have hlast : last = sep := by
      have hstop := List.head?_dropWhile_not (· != sep) cs.reverse
      rw [hdrop] at hstop
      simpa using hstop
    rw [hdrop, hlast] at hsplit
    calc cs = cs.reverse.reverse := cs.reverse_reverse.symm
      _ = (cs.reverse.takeWhile (· != sep) ++ sep :: front).reverse := by rw [hsplit]
      _ = front.reverse ++ sep :: (cs.reverse.takeWhile (· != sep)).reverse := by simp

namespace TaskPath

/-- The project can be written, and so can the name behind it. -/
structure Written (t : TaskPath) : Prop where
  project : t.project.Written
  name_ne : t.name.toList.isEmpty = false
  name_colon : ':' ∉ t.name.toList

/-- What stands before the last colon is read as the path of a project, but nothing stands for the root. -/
theorem parse_append {before name : String} (hname : name ≠ "") (hcolon : ':' ∉ name.toList) :
    parse (before ++ ":" ++ name) =
      if before = "" then .ok ⟨.root, name⟩ else (ProjectPath.parse before).map (⟨·, name⟩) := by
  have htext : (before ++ ":" ++ name).toList = before.toList ++ ':' :: name.toList := by simp
  have hfull : name.toList.isEmpty = false := by simpa using hname
  have hempty : before.toList.isEmpty = true ↔ before = "" := by simp
  rw [parse, htext, cutAtLast_append hcolon]
  simp only [hfull, hempty, Bool.false_eq_true, if_false, String.ofList_toList]
  split
  · rfl
  · cases ProjectPath.parse before <;> rfl

/-- Only what has a name behind a last colon is read. -/
theorem parse_eq_ok_iff {raw : String} {t : TaskPath} :
    parse raw = .ok t ↔ ∃ before, raw = before ++ ":" ++ t.name ∧ t.name ≠ "" ∧ ':' ∉ t.name.toList ∧
      (before = "" ∧ t.project = .root ∨ ProjectPath.parse before = .ok t.project) := by
  constructor
  · intro h
    cases hcut : cutAtLast ':' raw.toList with
    | none =>
        rw [parse, hcut] at h
        cases h
    | some cut =>
        obtain ⟨before, name⟩ := cut
        have hraw : raw = String.ofList before ++ ":" ++ String.ofList name := by
          apply String.toList_inj.1
          rw [append_of_cutAtLast hcut]
          simp
        have hcolon : ':' ∉ (String.ofList name).toList := by
          rw [String.toList_ofList]
          exact not_mem_of_cutAtLast hcut
        have hname : String.ofList name ≠ "" := by
          intro hnone
          rw [parse, hcut] at h
          simp [String.ofList_eq_empty_iff.1 hnone] at h
        rw [hraw, parse_append hname hcolon] at h
        split at h
        · rename_i hnothing
          cases h
          exact ⟨_, hraw, hname, hcolon, Or.inl ⟨hnothing, rfl⟩⟩
        · obtain ⟨project, hproject, rfl⟩ := except_map_eq_ok.1 h
          exact ⟨_, hraw, hname, hcolon, Or.inr hproject⟩
  · obtain ⟨project, name⟩ := t
    rintro ⟨before, rfl, hname, hcolon, h⟩
    rw [parse_append hname hcolon]
    rcases h with ⟨rfl, rfl⟩ | h
    · rfl
    · rw [if_neg, h]
      · rfl
      · rintro rfl
        cases h

theorem written_of_parse {raw : String} {t : TaskPath} (h : parse raw = .ok t) : t.Written := by
  obtain ⟨before, _, hname, hcolon, hproject⟩ := parse_eq_ok_iff.1 h
  refine ⟨?_, by simpa using hname, hcolon⟩
  rcases hproject with ⟨_, hroot⟩ | hproject
  · rw [hroot]
    exact ProjectPath.written_root
  · exact ProjectPath.written_of_parse hproject

/-- A written path of a task is read back. -/
theorem parse_render {t : TaskPath} (h : t.Written) : parse t.render = .ok t := by
  refine parse_eq_ok_iff.2 ⟨_, rfl, by simpa using h.name_ne, h.name_colon, ?_⟩
  split
  · rename_i hroot
    exact Or.inl ⟨rfl, ProjectPath.isRoot_iff.1 hroot⟩
  · exact Or.inr (ProjectPath.parse_render h.project)

end TaskPath

end ProjectGraph
