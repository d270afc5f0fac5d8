import ProjectGraph.Json.Token

/-!
Reading JSON text. The reader keeps a stack of the containers that are open; every token either goes on
from there or is a fault, which ends the reading and leaves all of them open.
-/

namespace ProjectGraph

namespace JsonReader

/-- A container that is open: what it holds so far, the last one in front. -/
inductive Frame where
  | items (before : List Json)
  /-- With the key whose value is awaited, if there is one. -/
  | entries (before : List (Option String × Json)) (key : Option (Option String))

/-- What may come next. -/
inductive Expecting where
  | value
  | valueOrClose
  | commaOrClose
  | key
  | keyOrClose
  | colon

inductive State where
  | reading (stack : List Frame) (expecting : Expecting)
  | complete (value : Json)
  /-- Nothing more is read. -/
  | stopped (document : JsonDocument)

/-- Puts a value where one was expected. -/
def put (value : Json) : List Frame → State
  | [] => .complete value
  | .items before :: stack => .reading (.items (value :: before) :: stack) .commaOrClose
  | .entries before key :: stack =>
    .reading (.entries ((key.getD none, value) :: before) none :: stack) .commaOrClose

/-- Gives up with containers open; a value that was expected is a fault. -/
def abandon (stack : List Frame) (last : Option Json) : Json :=
  match stack with
  | [] => last.getD .fault
  | .items before :: stack => abandon stack (some (.array (last.toList ++ before).reverse false))
  | .entries before key :: stack =>
    let entries := (key.bind fun k => last.map fun v => (k, v)).toList ++ before
    abandon stack (some (.object entries.reverse false))

def stop (stack : List Frame) (last : Option Json) : State := .stopped ⟨abandon stack last, false⟩

/-- A token where a value may stand. -/
def readValue (stack : List Frame) : JsonToken → State
  | .null => put .null stack
  | .bool b => put (.bool b) stack
  | .number n => put (.number n) stack
  | .string s => put (.string s) stack
  | .openArray => .reading (.items [] :: stack) .valueOrClose
  | .openObject => .reading (.entries [] none :: stack) .keyOrClose
  | _ => stop stack (some .fault)

/-- A token where a container may go on or be closed. -/
def goOn (stack : List Frame) (token : JsonToken) : State :=
  match token, stack with
  | .comma, .items _ :: _ => .reading stack .value
  | .comma, .entries _ _ :: _ => .reading stack .key
  | .closeArray, .items before :: rest => put (.array before.reverse true) rest
  | .closeObject, .entries before _ :: rest => put (.object before.reverse true) rest
  | _, _ => stop stack none

def readKey (stack : List Frame) (token : JsonToken) : State :=
  match token, stack with
  | .string k, .entries before _ :: rest => .reading (.entries before (some k) :: rest) .colon
  | _, _ => stop stack none

def step : State → JsonToken → State
  | .stopped d, _ => .stopped d
  | .complete value, _ => .stopped ⟨value, true⟩
  | .reading stack .value, t => readValue stack t
  | .reading stack .valueOrClose, .closeArray => goOn stack .closeArray
  | .reading stack .valueOrClose, t => readValue stack t
  | .reading stack .commaOrClose, t => goOn stack t
  | .reading stack .key, t => readKey stack t
  | .reading stack .keyOrClose, .closeObject => goOn stack .closeObject
  | .reading stack .keyOrClose, t => readKey stack t
  | .reading stack .colon, .colon => .reading stack .value
  | .reading stack .colon, _ => stop stack (some .fault)

/-- What was read when the text ends. -/
def finish : State → JsonDocument
  | .stopped d => d
  | .complete value => ⟨value, false⟩
  | .reading stack .value | .reading stack .valueOrClose | .reading stack .colon =>
    ⟨abandon stack (some .fault), false⟩
  | .reading stack _ => ⟨abandon stack none, false⟩

end JsonReader

/-- Reads a document. -/
def JsonDocument.read (text : String) : JsonDocument :=
  JsonReader.finish ((JsonToken.all text.toList).foldl JsonReader.step (.reading [] .value))

end ProjectGraph
