import ProjectGraph.Json.Number

/-!
JSON documents as they are read: what stands in front of the first fault is there, and a container that was
never closed says so. Entries keep their order and their repetitions, and numbers the form in which they
are written.
-/

namespace ProjectGraph

inductive Json where
  | null
  | bool (value : Bool)
  | number (numeral : Numeral)
  /-- A string literal; unpaired surrogates make one that stands for no text. -/
  | string (text : Option String)
  | array (items : List Json) (closed : Bool)
  | object (entries : List (Option String × Json)) (closed : Bool)
  /-- No value could be read. -/
  | fault
  deriving Inhabited

namespace Json

def text (s : String) : Json := .string (some s)

def list (items : List Json) : Json := .array items true

/-- The fields that are there. -/
def record (fields : List (String × Option Json)) : Json :=
  .object (fields.filterMap fun f => f.2.map fun j => (some f.1, j)) true

/-- Whether the value was read to its end. A fault inside leaves every container around it open. -/
def isWhole : Json → Bool
  | .fault => false
  | .array _ closed => closed
  | .object _ closed => closed
  | _ => true

end Json

/-- A document: its value, and whether anything stands behind it. -/
structure JsonDocument where
  value : Json
  trailing : Bool
  deriving Inhabited

end ProjectGraph
