import ProjectGraph.Proofs.Json.Recovered
import ProjectGraph.Proofs.Path.Written

/-!
What is written is read back. Each type whose values are written field by field has a lemma that its record recovers
them; the others have one that their decoder reads them. A field that is left out where it holds nothing is read as
holding nothing, and a path of a task is read back from its own text if it was read from a text before.
-/

namespace ProjectGraph

open Json Record

/-! ### Parts -/

theorem reads_text (s : String) : Decoder.Reads decodeText (.text s) s := fun _ => rfl

theorem reads_some_text (s : String) : Decoder.Reads (decodeOption decodeText) (.text s) (some s) := fun _ => rfl

theorem reads_bool (value : Bool) : Decoder.Reads decodeBool (.bool value) value := fun _ => rfl

theorem FilePath.reads (p : FilePath) : Decoder.Reads FilePath.decode p.toJson p := by
  intro place
  have hof : FilePath.of p.text = p := by
    obtain ⟨text, components, heq⟩ := p
    subst heq
    rfl
  exact congrArg Except.ok hof

theorem reads_list {α : Type} {d : Decoder α} {toJson : α → Json} {items : List α}
    (h : ∀ a ∈ items, d.Reads (toJson a) a) : Decoder.Reads (decodeList d) (.list (items.map toJson)) items := by
  intro place
  have hitems : decodeItems (d place.inside) (items.map toJson) = .ok items := by
    induction items with
    | nil => rfl
    | cons a items ih =>
        obtain ⟨ha, hrest⟩ := List.forall_mem_cons.1 h
        exact except_bind_eq_ok.2 ⟨a, ha place.inside, except_bind_eq_ok.2 ⟨items, ih hrest, rfl⟩⟩
  exact except_bind_eq_ok.2 ⟨items, hitems, rfl⟩

theorem Attributes.reads (a : Attributes) : Decoder.Reads Attributes.decode (Attributes.toJson a) a := by
  intro place
  have hpairs : ∀ entries : List (String × String),
      decodePairs place.inside (entries.map fun e => (some e.1, .text e.2)) = .ok entries := by
    intro entries
    induction entries with
    | nil => rfl
    | cons e entries ih => exact except_bind_eq_ok.2 ⟨e.2, rfl, except_bind_eq_ok.2 ⟨entries, ih, rfl⟩⟩
  refine except_bind_eq_ok.2 ⟨a.entries, hpairs a.entries, ?_⟩
  exact congrArg Except.ok a.ofList_entries

theorem recovers_optionText (name : String) (value : Option String) (aliases : List String) :
    (optional name (decodeOption decodeText) none aliases).Recovers [(name, value.map .text)] value := by
  cases value with
  | none => exact recovers_leftOut ..
  | some s => exact recovers_given (reads_some_text s) ..

theorem recovers_optionList {α : Type} {d : Decoder α} {toJson : α → Json} {items : List α}
    (h : ∀ a ∈ items, d.Reads (toJson a) a) (name : String) :
    (optional name (decodeList d) [] []).Recovers [(name, nonEmptyList items toJson)] items := by
  unfold nonEmptyList
  split
  · rename_i hempty
    cases List.isEmpty_iff.1 hempty
    exact recovers_leftOut ..
  · exact recovers_given (reads_list h) ..

theorem recovers_attributes (name : String) (a : Attributes) :
    (optional name Attributes.decode .empty []).Recovers
      [(name, if a.isEmpty then none else some (Attributes.toJson a))] a := by
  split
  · rename_i hempty
    have ha : a = .empty := SortedMap.ext_entries (List.isEmpty_iff.1 hempty)
    rw [ha]
    exact recovers_leftOut ..
  · exact recovers_given a.reads ..

/-! ### Records -/

theorem Capability.recovers (c : Capability) : Capability.record.Recovers
    [("group", some (.text c.group)), ("name", some (.text c.name)), ("version", c.version.map .text)] c :=
  (((recovers_required (reads_text c.group) "group").map Capability.mk).seq
    (recovers_required (reads_text c.name) "name")).seq (recovers_optionText "version" c.version [])

theorem Capability.reads (c : Capability) : Capability.decode.Reads c.toJson c :=
  c.recovers.decode (by decide) "Capability"

theorem ExcludeRule.recovers (r : ExcludeRule) :
    ExcludeRule.record.Recovers [("group", r.group.map .text), ("module", r.module.map .text)] r :=
  ((recovers_optionText "group" r.group []).map ExcludeRule.mk).seq (recovers_optionText "module" r.module [])

theorem ExcludeRule.reads (r : ExcludeRule) : ExcludeRule.decode.Reads r.toJson r :=
  r.recovers.decode (by decide) "ExcludeRule"

theorem Request.recovers (r : Request) : Request.record.Recovers r.toFields r :=
  (((((recovers_optionText "targetConfiguration" r.targetConfiguration ["configuration"]).map Request.mk).seq
    (recovers_given (reads_bool r.transitive) "transitive" true [])).seq
    (recovers_attributes "attributes" r.attributes)).seq
    (recovers_optionList (fun c _ => c.reads) "requestedCapabilities")).seq
    (recovers_optionList (fun rule _ => rule.reads) "excludeRules")

theorem Request.reads (r : Request) : Request.decode.Reads r.toJson r :=
  r.recovers.decode (by decide) "DependencyState"

theorem Constraint.recovers (c : Constraint) : Constraint.record.Recovers
    [("group", some (.text c.group)), ("name", some (.text c.name)), ("version", some (.text c.version)),
      ("reason", c.reason.map .text)] c :=
  ((((recovers_required (reads_text c.group) "group").map Constraint.mk).seq
    (recovers_required (reads_text c.name) "name")).seq (recovers_required (reads_text c.version) "version")).seq
    (recovers_optionText "reason" c.reason [])

theorem Constraint.reads (c : Constraint) : Constraint.decode.Reads c.toJson c :=
  c.recovers.decode (by decide) "DependencyConstraint"

/-! ### Values that can be kept -/

namespace Json

variable {depth : Nat}

theorem allSound_iff {js : List Json} : allSound depth js = true ↔ ∀ j ∈ js, j.isSound depth = true := by
  induction js with
  | nil => simp [allSound]
  | cons j js ih => simp [allSound, ih]

theorem allEntriesSound_entriesOf {found : Found} :
    allEntriesSound depth (entriesOf found) = true ↔ ∀ e ∈ found, e.2.isSound depth = true := by
  induction found with
  | nil => simp [entriesOf, allEntriesSound]
  | cons e found ih =>
      rw [entriesOf] at ih ⊢
      simp [allEntriesSound, ih]

theorem isSound_list {α : Type} {toJson : α → Json} {items : List α} (hdepth : depth < depthLimit)
    (h : ∀ a ∈ items, (toJson a).isSound (depth + 1) = true) : (list (items.map toJson)).isSound depth = true := by
  simp only [list, isSound, hdepth, decide_true, Bool.true_and, allSound_iff, List.forall_mem_map]
  exact h

/-- All fields that are there can be kept. -/
def FieldsSound (depth : Nat) (written : List (String × Option Json)) : Prop :=
  ∀ e ∈ written, ∀ j, e.2 = some j → j.isSound depth = true

theorem FieldsSound.record {written : List (String × Option Json)} (h : FieldsSound (depth + 1) written)
    (hdepth : depth < depthLimit) : (record written).isSound depth = true := by
  rw [record_eq]
  simp only [isSound, hdepth, decide_true, Bool.true_and, allEntriesSound_entriesOf]
  exact fun e he => h _ (mem_present.1 he) e.2 rfl

theorem FieldsSound.cons {name : String} {value : Option Json} {written : List (String × Option Json)}
    (h : ∀ j, value = some j → j.isSound depth = true) (hrest : FieldsSound depth written) :
    FieldsSound depth ((name, value) :: written) :=
  List.forall_mem_cons.2 ⟨h, hrest⟩

theorem isSound_of_some {j : Json} (h : j.isSound depth = true) : ∀ j', some j = some j' → j'.isSound depth = true := by
  rintro _ ⟨⟩
  exact h

theorem isSound_of_text {value : Option String} {j : Json} (h : value.map .text = some j) : j.isSound depth = true := by
  obtain ⟨s, _, rfl⟩ := Option.map_eq_some_iff.1 h
  rfl

theorem isSound_of_nonEmptyList {α : Type} {toJson : α → Json} {items : List α} (hdepth : depth < depthLimit)
    (h : ∀ a ∈ items, (toJson a).isSound (depth + 1) = true) {j : Json} (hj : nonEmptyList items toJson = some j) :
    j.isSound depth = true := by
  unfold nonEmptyList at hj
  split at hj
  · cases hj
  · cases hj
    exact isSound_list hdepth h

end Json

variable {depth : Nat}

theorem Capability.isSound_toJson (c : Capability) (hdepth : depth < depthLimit) : c.toJson.isSound depth = true := by
  refine FieldsSound.record ?_ hdepth
  refine .cons (isSound_of_some rfl) (.cons (isSound_of_some rfl) (.cons ?_ (List.forall_mem_nil _)))
  exact fun _ => isSound_of_text

theorem ExcludeRule.isSound_toJson (r : ExcludeRule) (hdepth : depth < depthLimit) :
    r.toJson.isSound depth = true := by
  refine FieldsSound.record ?_ hdepth
  exact .cons (fun _ => isSound_of_text) (.cons (fun _ => isSound_of_text) (List.forall_mem_nil _))

theorem Attributes.isSound_toJson (a : Attributes) (hdepth : depth < depthLimit) :
    (Attributes.toJson a).isSound depth = true := by
  have hentries : allEntriesSound (depth + 1) (a.entries.map fun e => (some e.1, Json.text e.2)) = true := by
    induction a.entries with
    | nil => rfl
    | cons e entries ih => exact ih
  simp only [Attributes.toJson, isSound, hdepth, decide_true, Bool.true_and, hentries]

theorem Request.fieldsSound (r : Request) (hdepth : depth + 1 < depthLimit) : FieldsSound depth r.toFields := by
  have hdepth' : depth < depthLimit := Nat.lt_of_succ_lt hdepth
  refine .cons (fun _ => isSound_of_text) (.cons (isSound_of_some rfl) (.cons ?_ (.cons ?_ (.cons ?_
    (List.forall_mem_nil _)))))
  · intro j hj
    split at hj
    · cases hj
    · cases hj
      exact r.attributes.isSound_toJson hdepth'
  · exact fun _ => isSound_of_nonEmptyList hdepth' fun c _ => c.isSound_toJson hdepth
  · exact fun _ => isSound_of_nonEmptyList hdepth' fun rule _ => rule.isSound_toJson hdepth

/-! ### Modules, which hold the fields of their request -/

/-- The fields of a module besides those of its request. -/
theorem ModuleDependency.recovers (m : ModuleDependency) : ModuleDependency.record.Recovers
    [("group", some (.text m.group)), ("name", some (.text m.name)), ("version", m.version.map .text)]
    (ModuleDependency.mk m.group m.name m.version) :=
  (((recovers_required (reads_text m.group) "group").map ModuleDependency.mk).seq
    (recovers_required (reads_text m.name) "name")).seq (recovers_optionText "version" m.version [])

theorem ModuleDependency.decode_toJson (m : ModuleDependency) : ModuleDependency.decode .top m.toJson = .ok m := by
  refine except_bind_eq_ok.2 ⟨(ModuleDependency.mk m.group m.name m.version, m.request), ?_, rfl⟩
  exact m.recovers.decodeWith m.request.recovers (by decide) (by decide) (by decide) "ModuleDependency"
    (m.request.fieldsSound (by decide))

/-! ### Artifacts, whose tasks are texts of their own -/

theorem TaskPath.reads {t : TaskPath} (h : t.Written) : TaskPath.decode.Reads t.toJson t := by
  intro place
  refine except_bind_eq_ok.2 ⟨t.render, rfl, ?_⟩
  rw [parse_render h]
  rfl

theorem Artifact.recovers {a : Artifact} (h : ∀ t ∈ a.builtBy, t.Written) : Artifact.record.Recovers
    [("name", some (.text a.name)), ("extension", some (.text a.extension)), ("classifier", a.classifier.map .text),
      ("file", some a.file.toJson), ("builtBy", nonEmptyList a.builtBy TaskPath.toJson)] a :=
  (((((recovers_required (reads_text a.name) "name").map Artifact.mk).seq
    (recovers_given (reads_text a.extension) "extension" Artifact.defaultExtension [])).seq
    (recovers_optionText "classifier" a.classifier [])).seq (recovers_required a.file.reads "file")).seq
    (recovers_optionList (fun t ht => TaskPath.reads (h t ht)) "builtBy")

theorem Artifact.reads {a : Artifact} (h : ∀ t ∈ a.builtBy, t.Written) : Artifact.decode.Reads a.toJson a :=
  (Artifact.recovers h).decode (by decide) "PublishArtifact"

/--
What is written of a request, a module, a constraint, an artifact, a capability or an exclude rule is read back as the
same value, if the tasks of the artifact were read from a text once.
-/
theorem decode_undoes_toJson :
    (∀ r : Request, Request.decode .top r.toJson = .ok r) ∧
    (∀ m : ModuleDependency, ModuleDependency.decode .top m.toJson = .ok m) ∧
    (∀ c : Constraint, Constraint.decode .top c.toJson = .ok c) ∧
    (∀ a : Artifact, (∀ t ∈ a.builtBy, ∃ raw, TaskPath.parse raw = .ok t) → Artifact.decode .top a.toJson = .ok a) ∧
    (∀ c : Capability, Capability.decode .top c.toJson = .ok c) ∧
    ∀ r : ExcludeRule, ExcludeRule.decode .top r.toJson = .ok r := by
  refine ⟨fun r => r.reads .top, fun m => m.decode_toJson, fun c => c.reads .top, ?_, fun c => c.reads .top,
    fun r => r.reads .top⟩
  intro a hparsed
  refine Artifact.reads (fun t ht => ?_) .top
  obtain ⟨raw, hraw⟩ := hparsed t ht
  exact TaskPath.written_of_parse hraw

/-- An artifact with all its parts, built by a task of a project. -/
def sourcesJar : Artifact :=
  ⟨"lib", "jar", some "sources", .of "build/lib-sources.jar", [⟨⟨["libs", "core"]⟩, "sourcesJar"⟩]⟩

theorem decode_undoes_toJson_sourcesJar :
    (∀ t ∈ sourcesJar.builtBy, ∃ raw, TaskPath.parse raw = .ok t) ∧
    Artifact.decode .top sourcesJar.toJson = .ok sourcesJar := by
  have hparsed : ∀ t ∈ sourcesJar.builtBy, ∃ raw, TaskPath.parse raw = .ok t :=
    List.forall_mem_singleton.2 ⟨":libs:core:sourcesJar", by decide +kernel⟩
  exact ⟨hparsed, decode_undoes_toJson.2.2.2.1 sourcesJar hparsed⟩

end ProjectGraph
