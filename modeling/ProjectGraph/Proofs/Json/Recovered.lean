import ProjectGraph.Json.Values
import ProjectGraph.Proofs.Loops
import Mathlib.Data.List.Nodup

/-!
Records that are read back from what was written of them. The fields of a record are told apart by their names and
further names (`Apart`). So if an object holds some of them, each under its own name and with a value that can be
decoded, all are found, and nothing else is. `Recovers` says that what is found then makes a value. Like the records
it is put together field by field, with one lemma for each way of making a record.

A record inside another one is read from what the outer one leaves over, so the outer one must not know its fields.
-/

namespace ProjectGraph

namespace Json

/-- The fields that are there, by name. -/
def present (written : List (String × Option Json)) : Found := written.filterMap fun e => e.2.map fun j => (e.1, j)

/-- What was found, as entries of an object. -/
def entriesOf (found : Found) : List (Option String × Json) := found.map fun e => (some e.1, e.2)

theorem record_eq (written : List (String × Option Json)) :
    record written = .object (entriesOf (present written)) true := by
  rw [record, entriesOf, present, List.map_filterMap]
  simp only [Option.map_map]
  rfl

theorem present_append (written others : List (String × Option Json)) :
    present (written ++ others) = present written ++ present others :=
  List.filterMap_append

theorem mem_present {written : List (String × Option Json)} {e : String × Json} :
    e ∈ present written ↔ (e.1, some e.2) ∈ written := by
  obtain ⟨name, j⟩ := e
  simp only [present, List.mem_filterMap, Option.map_eq_some_iff, Prod.mk.injEq]
  constructor
  · rintro ⟨⟨_, _⟩, hmem, _, rfl, rfl, rfl⟩
    exact hmem
  · intro hmem
    exact ⟨_, hmem, j, rfl, rfl, rfl⟩

theorem names_present_sublist (written : List (String × Option Json)) :
    ((present written).map Prod.fst).Sublist (written.map Prod.fst) := by
  induction written with
  | nil => exact .slnil
  | cons e written ih =>
      obtain ⟨name, _ | j⟩ := e
      · exact ih.cons name
      · exact ih.cons_cons name

theorem lookup_eq_none {found : Found} {name : String} (h : name ∉ found.map Prod.fst) : found.lookup name = none := by
  rw [List.lookup_eq_none_iff]
  intro e he
  rw [bne_iff_ne]
  rintro rfl
  exact h (List.mem_map_of_mem he)

/-- Under the name of a field that was written stands what was written there, if anything. -/
theorem lookup_present {written : List (String × Option Json)} (hnames : (written.map Prod.fst).Nodup)
    {e : String × Option Json} (he : e ∈ written) : (present written).lookup e.1 = e.2 := by
  induction written with
  | nil => cases he
  | cons first written ih =>
      obtain ⟨name, value⟩ := first
      obtain ⟨hfirst, hrest⟩ := List.nodup_cons.1 hnames
      have hfree : name ∉ (present written).map Prod.fst := fun hmem =>
        hfirst ((names_present_sublist written).subset hmem)
      rcases List.mem_cons.1 he with rfl | hlater
      · cases value with
        | none => exact lookup_eq_none hfree
        | some j => exact List.lookup_cons_self
      · have hne : e.1 ≠ name := by
          rintro rfl
          exact hfirst (List.mem_map.2 ⟨e, hlater, rfl⟩)
        cases value with
        | none => exact ih hrest hlater
        | some j =>
            show List.lookup e.1 ((name, j) :: present written) = e.2
            rw [List.lookup_cons, beq_false_of_ne hne]
            exact ih hrest hlater

end Json

/-- The decoder reads the value from the document, wherever it stands. -/
def Decoder.Reads {α : Type} (d : Decoder α) (j : Json) (a : α) : Prop := ∀ place, d place j = .ok a

namespace Record

open Json

variable {fields : List Field} {place : Place} {found others more : Found}

/-! ### Reading entries -/

/-- The entries are of different fields, each under the field's own name, and can be decoded. -/
structure Readable (fields : List Field) (place : Place) (found more : Found) : Prop where
  known : ∀ e ∈ more, ∃ f, fields.find? (·.answersTo e.1) = some f ∧ f.name = e.1 ∧ f.check place e.2 = .ok ()
  once : ((found ++ more).map Prod.fst).Nodup

theorem Readable.next {e : String × Json} (h : Readable fields place found (e :: more)) :
    found.lookup e.1 = none ∧ Readable fields place (found ++ [e]) more := by
  obtain ⟨known, once⟩ := h
  refine ⟨?_, fun e' he' => known e' (List.mem_cons_of_mem _ he'), by simpa using once⟩
  refine lookup_eq_none fun hmem => ?_
  rw [List.map_append, List.nodup_append] at once
  exact once.2.2 e.1 hmem e.1 List.mem_cons_self rfl

theorem Readable.scan (h : Readable fields place found more) :
    scan fields place found (entriesOf more) = .ok (found ++ more) := by
  induction more generalizing found with
  | nil => simp [entriesOf, Record.scan]
  | cons e more ih =>
      obtain ⟨f, hf, hname, hcheck⟩ := h.known e List.mem_cons_self
      obtain ⟨hnew, hrest⟩ := h.next
      have hmore := ih hrest
      rw [List.append_assoc, List.singleton_append] at hmore
      simp only [entriesOf, List.map_cons, Record.scan, hf, hname, hnew, hcheck] at hmore ⊢
      exact hmore

/-- The same with what stands behind, where entries of nobody's fields are kept. -/
theorem Readable.scanKeeping (h : Readable fields place found more) (behind : List (Option String × Json)) :
    scanKeeping fields place found others (entriesOf more ++ behind) =
      scanKeeping fields place (found ++ more) others behind := by
  induction more generalizing found with
  | nil => simp [entriesOf]
  | cons e more ih =>
      obtain ⟨f, hf, hname, hcheck⟩ := h.known e List.mem_cons_self
      obtain ⟨hnew, hrest⟩ := h.next
      have hmore := ih hrest
      rw [List.append_assoc, List.singleton_append] at hmore
      simp only [entriesOf, List.map_cons, List.cons_append, Record.scanKeeping, hf, hname, hnew, hcheck] at hmore ⊢
      exact hmore

theorem scanKeeping_others
    (h : ∀ e ∈ more, fields.find? (·.answersTo e.1) = none ∧ e.2.isSound place.depth = true) :
    scanKeeping fields place found others (entriesOf more) = .ok (found, others ++ more) := by
  induction more generalizing others with
  | nil => simp [entriesOf, scanKeeping]
  | cons e more ih =>
      obtain ⟨⟨hnone, hsound⟩, hrest⟩ := List.forall_mem_cons.1 h
      rw [entriesOf, List.map_cons, Record.scanKeeping]
      simp only [hnone, hsound, if_true]
      exact (ih hrest).trans (by rw [List.append_assoc, List.singleton_append])

/-! ### Fields that are told apart -/

/-- No field answers to the name of another one. -/
def Apart (fields : List Field) : Prop :=
  fields.Pairwise fun f g => f.answersTo g.name = false ∧ g.answersTo f.name = false

instance (fields : List Field) : Decidable (Apart fields) :=
  inferInstanceAs (Decidable (fields.Pairwise _))

theorem find?_of_apart (h : Apart fields) {f : Field} (hf : f ∈ fields) :
    fields.find? (·.answersTo f.name) = some f := by
  induction fields with
  | nil => cases hf
  | cons g fields ih =>
      obtain ⟨hg, hrest⟩ := List.pairwise_cons.1 h
      rcases List.mem_cons.1 hf with rfl | hlater
      · rw [List.find?_cons_of_pos]
        simp [Field.answersTo]
      · rw [List.find?_cons_of_neg]
        · exact ih hrest hlater
        · rw [(hg f hlater).1]
          exact Bool.false_ne_true

theorem Apart.nodup (h : Apart fields) : (fields.map Field.name).Nodup := by
  refine List.pairwise_map.2 (h.imp ?_)
  rintro f g ⟨hfg, _⟩ heq
  simp [Field.answersTo, heq] at hfg

/-! ### Records -/

variable {α β : Type}

/-- What is written of a record is under the names of its fields, and makes the value when it is found again. -/
structure Recovers (r : Record α) (written : List (String × Option Json)) (a : α) : Prop where
  names : written.map Prod.fst = r.fields.map Field.name
  takes : ∀ e ∈ written, ∃ f ∈ r.fields, f.name = e.1 ∧ ∀ place j, e.2 = some j → f.check place j = .ok ()
  build : ∀ missing place found, (∀ e ∈ written, found.lookup e.1 = e.2) → r.build missing place found = .ok a

section Recovers

variable {r : Record α} {written written' : List (String × Option Json)} {a : α} {b : β} {name : String}

theorem Recovers.readable (h : r.Recovers written a) (hapart : Apart r.fields) (place : Place) :
    Readable r.fields place [] (present written) where
  known e he := by
    obtain ⟨f, hf, hname, hcheck⟩ := h.takes _ (mem_present.1 he)
    refine ⟨f, ?_, hname, hcheck place e.2 rfl⟩
    rw [← find?_of_apart hapart hf, hname]
  once := by
    rw [List.nil_append]
    refine (names_present_sublist written).nodup ?_
    rw [h.names]
    exact hapart.nodup

theorem Recovers.build_present (h : r.Recovers written a) (hapart : Apart r.fields) (missing : String → DecodeError)
    (place : Place) : r.build missing place (present written) = .ok a := by
  refine h.build missing place _ fun e he => lookup_present ?_ he
  rw [h.names]
  exact hapart.nodup

/-- What was written of a record is read back. -/
theorem Recovers.decode (h : r.Recovers written a) (hapart : Apart r.fields) (type : String) (place : Place) :
    r.decode type place (.record written) = .ok a := by
  have hscan := (h.readable hapart place.inside).scan
  rw [List.nil_append] at hscan
  rw [record_eq, Record.decode, hscan]
  exact h.build_present hapart .missingField place.inside

/-- A record inside another one, too, if the outer one does not know its fields. -/
theorem Recovers.decodeWith (h : r.Recovers written a) {inner : Record β} (h' : inner.Recovers written' b)
    (hapart : Apart r.fields) (hapart' : Apart inner.fields)
    (hunknown : ∀ name ∈ inner.fields.map Field.name, ∀ f ∈ r.fields, f.answersTo name = false) (type : String)
    {place : Place} (hsound : ∀ e ∈ written', ∀ j, e.2 = some j → j.isSound place.inside.depth = true) :
    Record.decodeWith r inner type place (.record (written ++ written')) = .ok (a, b) := by
  have hothers : ∀ e ∈ present written',
      r.fields.find? (·.answersTo e.1) = none ∧ e.2.isSound place.inside.depth = true := by
    intro e he
    rw [mem_present] at he
    refine ⟨?_, hsound _ he e.2 rfl⟩
    rw [List.find?_eq_none]
    intro f hf
    have hname : e.1 ∈ inner.fields.map Field.name := by
      rw [← h'.names]
      exact List.mem_map_of_mem he
    rw [hunknown e.1 hname f hf]
    exact Bool.false_ne_true
  have hinner := (h'.readable hapart' { place.inside with kept := true }).scan
  rw [List.nil_append] at hinner
  have hentries : entriesOf (present (written ++ written')) =
      entriesOf (present written) ++ entriesOf (present written') := by
    rw [present_append, entriesOf, List.map_append]
    rfl
  rw [record_eq, hentries, Record.decodeWith, (h.readable hapart place.inside).scanKeeping,
    scanKeeping_others hothers, List.nil_append, List.nil_append]
  exact except_bind_eq_ok.2 ⟨_, rfl, except_bind_eq_ok.2 ⟨a, h.build_present hapart _ _,
    except_bind_eq_ok.2 ⟨_, hinner, except_bind_eq_ok.2 ⟨b, h'.build_present hapart' _ _, rfl⟩⟩⟩⟩

theorem recovers_pure (a : α) : Recovers (pure a) [] a where
  names := rfl
  takes _ he := nomatch he
  build _ _ _ _ := rfl

theorem Recovers.seq {f : Record (α → β)} {g : α → β} (hf : f.Recovers written g) (h : r.Recovers written' a) :
    (f <*> r).Recovers (written ++ written') (g a) where
  names := by
    rw [List.map_append, hf.names, h.names, ← List.map_append]
    rfl
  takes e he := by
    rcases List.mem_append.1 he with he | he
    · obtain ⟨field, hfield, htakes⟩ := hf.takes e he
      exact ⟨field, List.mem_append_left _ hfield, htakes⟩
    · obtain ⟨field, hfield, htakes⟩ := h.takes e he
      exact ⟨field, List.mem_append_right _ hfield, htakes⟩
  build missing place found hfound := by
    obtain ⟨hleft, hright⟩ := List.forall_mem_append.1 hfound
    exact except_bind_eq_ok.2 ⟨g, hf.build missing place found hleft,
      except_bind_eq_ok.2 ⟨a, h.build missing place found hright, rfl⟩⟩

theorem Recovers.map (h : r.Recovers written a) (f : α → β) : (f <$> r).Recovers written (f a) :=
  (recovers_pure f).seq h

theorem recovers_required {d : Decoder α} {j : Json} (h : d.Reads j a) (name : String) :
    (required name d).Recovers [(name, some j)] a where
  names := rfl
  takes := List.forall_mem_singleton.2 ⟨_, List.mem_cons_self, rfl, fun place j hj => by
    cases hj
    simp [Field.ofDecoder, h place, Except.map]⟩
  build missing place found hfound := by
    have hlookup := hfound _ List.mem_cons_self
    simp only [required, hlookup]
    exact h place

/-- A field that may be left out and is not. -/
theorem recovers_given {d : Decoder α} {j : Json} (h : d.Reads j a) (name : String) (absent : α)
    (aliases : List String) : (optional name d absent aliases).Recovers [(name, some j)] a where
  names := rfl
  takes := List.forall_mem_singleton.2 ⟨_, List.mem_cons_self, rfl, fun place j hj => by
    cases hj
    simp [Field.ofDecoder, h place, Except.map]⟩
  build missing place found hfound := by
    have hlookup := hfound _ List.mem_cons_self
    simp only [optional, hlookup]
    exact h place

theorem recovers_leftOut (name : String) (d : Decoder α) (absent : α) (aliases : List String) :
    (optional name d absent aliases).Recovers [(name, none)] absent where
  names := rfl
  takes := List.forall_mem_singleton.2 ⟨_, List.mem_cons_self, rfl, fun _ _ hj => nomatch hj⟩
  build missing place found hfound := by
    have hlookup := hfound _ List.mem_cons_self
    simp only [optional, hlookup]

end Recovers

end Record

end ProjectGraph
