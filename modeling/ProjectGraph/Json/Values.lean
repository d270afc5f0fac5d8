import ProjectGraph.Configuration
import ProjectGraph.Deprecation.WarningMode
import ProjectGraph.Json.Record

/-!
The written forms of paths, dependencies and artifacts: for each type a `toJson` and a decoder that reads
it back. Fields that hold nothing are left out, and read as such where they are missing.
-/

namespace ProjectGraph

open Json Record

/-- Left out if empty. -/
def Json.nonEmptyList {α : Type} (items : List α) (toJson : α → Json) : Option Json :=
  if items.isEmpty then none else some (.list (items.map toJson))

/-! ### Paths -/

def ProjectPath.toJson (p : ProjectPath) : Json := .text p.render

def ProjectPath.decode : Decoder ProjectPath := decodeParsed ProjectPath.parse

def TaskPath.toJson (t : TaskPath) : Json := .text t.render

def TaskPath.decode : Decoder TaskPath := decodeParsed TaskPath.parse

def FilePath.toJson (p : FilePath) : Json := .text p.text

def FilePath.decode : Decoder FilePath
  | _, .string (some s) => .ok (.of s)
  | _, j => .error (j.mismatch "path string")

/-! ### What dependencies ask for -/

def Attributes.toJson (a : Attributes) : Json :=
  .object (a.entries.map fun e => (some e.1, .text e.2)) true

def Attributes.decode : Decoder Attributes := decodeTextMap

def Capability.toJson (c : Capability) : Json :=
  .record [("group", some (.text c.group)), ("name", some (.text c.name)), ("version", c.version.map .text)]

def Capability.record : Record Capability :=
  Capability.mk <$> required "group" decodeText <*> required "name" decodeText
    <*> optional "version" (decodeOption decodeText) none []

def Capability.decode : Decoder Capability := Capability.record.decode "Capability"

def ExcludeRule.toJson (r : ExcludeRule) : Json :=
  .record [("group", r.group.map .text), ("module", r.module.map .text)]

def ExcludeRule.record : Record ExcludeRule :=
  ExcludeRule.mk <$> optional "group" (decodeOption decodeText) none []
    <*> optional "module" (decodeOption decodeText) none []

def ExcludeRule.decode : Decoder ExcludeRule := ExcludeRule.record.decode "ExcludeRule"

/-- The fields of a request, which other records may hold among their own. -/
def Request.toFields (r : Request) : List (String × Option Json) :=
  [("targetConfiguration", r.targetConfiguration.map .text),
    ("transitive", some (.bool r.transitive)),
    ("attributes", if r.attributes.isEmpty then none else some (Attributes.toJson r.attributes)),
    ("requestedCapabilities", nonEmptyList r.capabilities Capability.toJson),
    ("excludeRules", nonEmptyList r.excludes ExcludeRule.toJson)]

def Request.toJson (r : Request) : Json := .record r.toFields

def Request.record : Record Request :=
  Request.mk <$> optional "targetConfiguration" (decodeOption decodeText) none ["configuration"]
    <*> optional "transitive" decodeBool true []
    <*> optional "attributes" Attributes.decode .empty []
    <*> optional "requestedCapabilities" (decodeList Capability.decode) [] []
    <*> optional "excludeRules" (decodeList ExcludeRule.decode) [] []

def Request.decode : Decoder Request := Request.record.decode "DependencyState"

/-! ### Dependencies and constraints -/

def ModuleDependency.toJson (m : ModuleDependency) : Json :=
  .record ([("group", some (.text m.group)), ("name", some (.text m.name)), ("version", m.version.map .text)]
    ++ m.request.toFields)

/-- The fields of a module besides those of its request. -/
def ModuleDependency.record : Record (Request → ModuleDependency) :=
  ModuleDependency.mk <$> required "group" decodeText <*> required "name" decodeText
    <*> optional "version" (decodeOption decodeText) none []

def ModuleDependency.decode : Decoder ModuleDependency := fun place j => do
  let (withRequest, request) ← decodeWith ModuleDependency.record Request.record "ModuleDependency" place j
  return withRequest request

def Constraint.toJson (c : Constraint) : Json :=
  .record [("group", some (.text c.group)), ("name", some (.text c.name)),
    ("version", some (.text c.version)), ("reason", c.reason.map .text)]

def Constraint.record : Record Constraint :=
  Constraint.mk <$> required "group" decodeText <*> required "name" decodeText
    <*> required "version" decodeText <*> optional "reason" (decodeOption decodeText) none []

def Constraint.decode : Decoder Constraint := Constraint.record.decode "DependencyConstraint"

/-! ### Artifacts -/

def Artifact.toJson (a : Artifact) : Json :=
  .record [("name", some (.text a.name)), ("extension", some (.text a.extension)),
    ("classifier", a.classifier.map .text), ("file", some a.file.toJson),
    ("builtBy", nonEmptyList a.builtBy TaskPath.toJson)]

def Artifact.record : Record Artifact :=
  Artifact.mk <$> required "name" decodeText
    <*> optional "extension" decodeText Artifact.defaultExtension []
    <*> optional "classifier" (decodeOption decodeText) none []
    <*> required "file" FilePath.decode
    <*> optional "builtBy" (decodeList TaskPath.decode) [] []

def Artifact.decode : Decoder Artifact := Artifact.record.decode "PublishArtifact"

/-! ### Warning modes -/

def WarningMode.toJson (m : WarningMode) : Json := .text m.name

def WarningMode.ofVariant (name : String) : Except DecodeError WarningMode :=
  match WarningMode.ofName? name with
  | some m => .ok m
  | none => .error (.unknownVariant name (WarningMode.every.map WarningMode.name))

/-- A name, or an object with the name as its only key and `null` under it. -/
def WarningMode.decode : Decoder WarningMode
  | _, .string (some s) => WarningMode.ofVariant s
  | _, .object ((some key, content) :: others) closed => do
    let mode ← WarningMode.ofVariant key
    match content with
    | .null => if others.isEmpty && closed then return mode else .error .malformed
    | j => .error (j.mismatch "unit")
  | _, _ => .error .malformed

end ProjectGraph
