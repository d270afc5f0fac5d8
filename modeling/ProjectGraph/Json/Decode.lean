import ProjectGraph.Json.Reader
import ProjectGraph.Path.Project
import ProjectGraph.SortedMap
import ProjectGraph.Text.Quoted

/-!
Decoding values of a document. What is wrong is found in the order in which the document is read: a value
of the wrong kind counts before a fault behind it, and the other way round. A container is looked at as
soon as it is opened, so a wrong container is wrong whatever it holds.

Values that nothing asks for are skipped or kept. Skipped ones need to be whole. Kept ones need to be sound
all the way down: no number out of range, no text with unpaired surrogates, and no more than 127 containers
inside one another.
-/

namespace ProjectGraph

/-- What is wrong with a document, without where in it. -/
inductive DecodeError where
  /-- The text is not JSON, or no JSON that can be kept, for whatever reason. -/
  | malformed
  | invalidType (found expected : String)
  | invalidLength (count : Nat) (expected : String)
  | missingField (name : String)
  | duplicateField (name : String)
  | unknownVariant (name : String) (variants : List String)
  | noVariant (type : String)
  | path (fault : PathFault)
  deriving DecidableEq

namespace DecodeError

/-- A name between grave accents. -/
def ticked (name : String) : String := "\x60" ++ name ++ "\x60"

def message : DecodeError → String
  | .malformed => "malformed JSON"
  | .invalidType found expected => "invalid type: " ++ found ++ ", expected " ++ expected
  | .invalidLength count expected => "invalid length " ++ toString count ++ ", expected " ++ expected
  | .missingField name => "missing field " ++ ticked name
  | .duplicateField name => "duplicate field " ++ ticked name
  | .unknownVariant name variants =>
    "unknown variant " ++ ticked name ++ ", expected one of " ++ ", ".intercalate (variants.map ticked)
  | .noVariant type => "data did not match any variant of untagged enum " ++ type
  | .path fault => "Invalid path '" ++ fault.text ++ "'"

end DecodeError

/-- Where a value stands in its document. -/
structure Place where
  /-- How many containers are around it. -/
  depth : Nat
  /-- Whether the value has been kept before it is decoded. -/
  kept : Bool

namespace Place

def top : Place := ⟨0, false⟩

def inside (p : Place) : Place := { p with depth := p.depth + 1 }

end Place

abbrev Decoder (α : Type) := Place → Json → Except DecodeError α

namespace Json

/-- How deep containers may stand inside one another. -/
def depthLimit : Nat := 127

/-- A value that is of another kind than expected. -/
def mismatch (expected : String) : Json → DecodeError
  | .fault => .malformed
  | .null => .invalidType "null" expected
  | .bool b => .invalidType ("boolean " ++ DecodeError.ticked (toString b)) expected
  | .number n =>
    match n.value? with
    | none => .malformed
    | some (.integer i) => .invalidType ("integer " ++ DecodeError.ticked (toString i)) expected
    | some (.float x) => .invalidType ("floating point " ++ DecodeError.ticked (renderFloat x)) expected
  | .string none => .malformed
  | .string (some s) => .invalidType ("string " ++ quoted s) expected
  | .array _ _ => .invalidType "sequence" expected
  | .object _ _ => .invalidType "map" expected

mutual

/-- Whether a value with `depth` containers around it can be kept. -/
def isSound (depth : Nat) : Json → Bool
  | .fault => false
  | .null => true
  | .bool _ => true
  | .number n => n.value?.isSome
  | .string s => s.isSome
  | .array items closed => depth < depthLimit && closed && allSound (depth + 1) items
  | .object entries closed => depth < depthLimit && closed && allEntriesSound (depth + 1) entries

def allSound (depth : Nat) : List Json → Bool
  | [] => true
  | j :: js => j.isSound depth && allSound depth js

def allEntriesSound (depth : Nat) : List (Option String × Json) → Bool
  | [] => true
  | (key, j) :: entries => key.isSome && j.isSound depth && allEntriesSound depth entries

end

/-! ### Simple values -/

def decodeText : Decoder String
  | _, .string (some s) => .ok s
  | _, j => .error (j.mismatch "a string")

def decodeBool : Decoder Bool
  | _, .bool b => .ok b
  | _, j => .error (j.mismatch "a boolean")

/-- A value, or `null` for none. -/
def decodeOption {α : Type} (decode : Decoder α) : Decoder (Option α)
  | _, .null => .ok none
  | place, j => (decode place j).map some

def decodeItems {α : Type} (decode : Json → Except DecodeError α) : List Json → Except DecodeError (List α)
  | [] => .ok []
  | j :: js => do
    let value ← decode j
    let values ← decodeItems decode js
    return value :: values

def decodeList {α : Type} (decode : Decoder α) : Decoder (List α)
  | place, .array items closed => do
    let values ← decodeItems (decode place.inside) items
    if closed then return values else .error .malformed
  | _, j => .error (j.mismatch "a sequence")

def decodePairs (place : Place) : List (Option String × Json) → Except DecodeError (List (String × String))
  | [] => .ok []
  | (none, _) :: _ => .error .malformed
  | (some key, j) :: entries => do
    let value ← decodeText place j
    let pairs ← decodePairs place entries
    return (key, value) :: pairs

/-- A map of texts; of two entries with one key the later one counts. -/
def decodeTextMap : Decoder (SortedMap String String)
  | place, .object entries closed => do
    let pairs ← decodePairs place.inside entries
    if closed then return SortedMap.ofList pairs else .error .malformed
  | _, j => .error (j.mismatch "a map")

/-- A text that `parse` can read. -/
def decodeParsed {α : Type} (parse : String → Except PathFault α) : Decoder α
  | place, j => do
    let s ← decodeText place j
    match parse s with
    | .ok a => return a
    | .error pathFault => .error (.path pathFault)

end Json

/-- Reads a text and decodes its value. Nothing may stand behind the value. -/
def decodeDocument {α : Type} (decode : Decoder α) (text : String) : Except DecodeError α := do
  let document := JsonDocument.read text
  let value ← decode .top document.value
  if document.trailing then .error .malformed else return value

end ProjectGraph
