import ProjectGraph.Json.Decode

/-!
Records in JSON: an object with the fields in any order, or a list of the fields in the order in which they
are declared. Fields that nobody declared are skipped, repeated fields are refused, and what is missing is
noticed when all others have been read.

A record is put together from its fields with `<*>`; the fields are declared in the order of writing.
-/

namespace ProjectGraph

/-- A field as far as it concerns reading. -/
structure Field where
  name : String
  /-- Other names that mean the same field. -/
  aliases : List String
  /-- Whether the value can be decoded. -/
  check : Place → Json → Except DecodeError Unit

/-- The values of fields that were found, by the names of the fields. -/
abbrev Found := List (String × Json)

structure Record (α : Type) where
  fields : List Field
  /-- Decodes what was found; `missing` is what is said of a field that had to be there. -/
  build : (missing : String → DecodeError) → Place → Found → Except DecodeError α

namespace Field

def answersTo (key : String) (f : Field) : Bool := f.name == key || f.aliases.contains key

/-- A field whose values `decode` decodes. -/
def ofDecoder {α : Type} (name : String) (aliases : List String) (decode : Decoder α) : Field :=
  ⟨name, aliases, fun place j => (decode place j).map fun _ => ()⟩

end Field

namespace Record

instance : Applicative Record where
  pure a := ⟨[], fun _ _ _ => .ok a⟩
  seq f r :=
    { fields := f.fields ++ (r ()).fields
      build := fun missing place found => do
        let g ← f.build missing place found
        let a ← (r ()).build missing place found
        return g a }

/-- A field that has to be there. -/
def required {α : Type} (name : String) (decode : Decoder α) : Record α where
  fields := [.ofDecoder name [] decode]
  build := fun missing place found =>
    match found.lookup name with
    | some j => decode place j
    | none => .error (missing name)

/-- A field with a value for when it is not there. -/
def optional {α : Type} (name : String) (decode : Decoder α) (absent : α) (aliases : List String) :
    Record α where
  fields := [.ofDecoder name aliases decode]
  build := fun _ place found =>
    match found.lookup name with
    | some j => decode place j
    | none => .ok absent

/-- Reads the entries of an object. -/
def scan (fields : List Field) (place : Place) (found : Found) :
    List (Option String × Json) → Except DecodeError Found
  | [] => .ok found
  | (none, _) :: _ => .error .malformed
  | (some key, j) :: entries =>
    match fields.find? (·.answersTo key) with
    | none => if j.isWhole then scan fields place found entries else .error .malformed
    | some f =>
      if (found.lookup f.name).isSome then .error (.duplicateField f.name)
      else do
        f.check place j
        scan fields place (found ++ [(f.name, j)]) entries

/-- Reads the items of a list, one for each field as far as both go. -/
def scanList (place : Place) : List Field → List Json → Except DecodeError Found
  | f :: fields, j :: items => do
    f.check place j
    let found ← scanList place fields items
    return (f.name, j) :: found
  | _, _ => .ok []

/-- A list of fields that breaks off where a field had to be. -/
def tooShort (type : String) (fields : List Field) (name : String) : DecodeError :=
  .invalidLength (fields.findIdx (·.name == name))
    ("struct " ++ type ++ " with " ++ toString fields.length ++ " elements")

/-- A list that goes on behind the last field; only a kept one is known to have more elements. -/
def tooLong (place : Place) (count : Nat) (fields : List Field) : DecodeError :=
  if place.kept then .invalidLength count (toString fields.length ++ " elements in sequence") else .malformed

/-- A record of the named type. -/
def decode {α : Type} (r : Record α) (type : String) : Decoder α
  | place, .object entries closed => do
    let found ← scan r.fields place.inside [] entries
    if closed then r.build .missingField place.inside found else .error .malformed
  | place, .array items closed => do
    let found ← scanList place.inside r.fields items
    if r.fields.length < items.length then .error (tooLong place items.length r.fields)
    else if closed then r.build (tooShort type r.fields) place.inside found
    else .error .malformed
  | _, j => .error (j.mismatch ("struct " ++ type))

/-- Reads the entries of an object as `scan` does, and keeps those of nobody's fields. -/
def scanKeeping (fields : List Field) (place : Place) (found : Found) (others : Found) :
    List (Option String × Json) → Except DecodeError (Found × Found)
  | [] => .ok (found, others)
  | (none, _) :: _ => .error .malformed
  | (some key, j) :: entries =>
    match fields.find? (·.answersTo key) with
    | none =>
      if j.isSound place.depth then scanKeeping fields place found (others ++ [(key, j)]) entries
      else .error .malformed
    | some f =>
      if (found.lookup f.name).isSome then .error (.duplicateField f.name)
      else do
        f.check place j
        scanKeeping fields place (found ++ [(f.name, j)]) others entries

/--
A record with a second one in the same object. The fields of the first are decoded as they are read; the
others are kept, and the second record is decoded from them at the end. There is no list form.
-/
def decodeWith {α β : Type} (r : Record α) (inner : Record β) (type : String) : Decoder (α × β)
  | place, .object entries closed => do
    let (found, others) ← scanKeeping r.fields place.inside [] [] entries
    if closed then
      let outer ← r.build .missingField place.inside found
      let keptPlace := { place.inside with kept := true }
      let foundInner ← scan inner.fields keptPlace [] (others.map fun e => (some e.1, e.2))
      let rest ← inner.build .missingField keptPlace foundInner
      return (outer, rest)
    else .error .malformed
  | _, j => .error (j.mismatch ("struct " ++ type))

end Record

end ProjectGraph
