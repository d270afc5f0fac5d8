import ProjectGraph.Configuration
import ProjectGraph.Error
import Std.Data.ExtTreeMap

/-!
The configurations of one project, by name. All changes give a new container: registering, reconfiguring,
renaming and removing. Messages name the project as it was called when the container was made.
-/

namespace ProjectGraph

structure Container where
  owner : ProjectPath
  /-- What messages call the project. -/
  ownerName : String
  entries : Std.ExtTreeMap String Configuration
  deriving Inhabited

namespace Container

def new (owner : ProjectPath) (ownerName : String) : Container := ⟨owner, ownerName, ∅⟩

def find? (k : Container) (name : String) : Option Configuration := k.entries[name]?

/-- All registered configurations, by name. -/
def configurations (k : Container) : List Configuration := k.entries.toList.map (·.2)

def names (k : Container) : List String := k.entries.keys

def find (k : Container) (name : String) : Except BuildError Configuration :=
  match k.find? name with
  | some c => .ok c
  | none => .error (.noSuchConfiguration k.ownerName name)

/-- The configuration that a declaration becomes in this project. -/
def own (k : Container) (d : Declaration) : Configuration := { d with owner := k.owner }

def put (k : Container) (name : String) (c : Configuration) : Container :=
  { k with entries := k.entries.insert name c }

/-- Takes a declaration in under its name, if nothing is registered there. -/
def register (k : Container) (d : Declaration) : Container × Except BuildError Configuration :=
  if k.entries.contains d.name then (k, .error (.duplicateConfiguration k.ownerName d.name))
  else (k.put d.name (k.own d), .ok (k.own d))

/-- Puts a declaration in place of what is registered under the name. The name stays. -/
def replace (k : Container) (name : String) (d : Declaration) :
    Container × Except BuildError Configuration :=
  let c := k.own { d with name }
  if k.entries.contains name then (k.put name c, .ok c)
  else (k, .error (.noSuchConfiguration k.ownerName name))

/--
Rebuilds a configuration through `action`, which starts from what is registered now and may itself change
the container. What it left there is kept, whether or not the configuration can still be replaced.
-/
def configure (k : Container) (name : String)
    (action : Declaration → Container → Declaration × Container) :
    Container × Except BuildError Configuration :=
  match k.find name with
  | .error e => (k, .error e)
  | .ok c =>
    let (d, k) := action c.toDeclaration k
    k.replace name d

def remove (k : Container) (name : String) : Container × Option Configuration :=
  ({ k with entries := k.entries.erase name }, k.find? name)

/-- Moves a configuration to a name that is free. It is taken out before it is known to be there. -/
def rename (k : Container) (source target : String) : Container × Except BuildError Configuration :=
  if k.entries.contains target then (k, .error (.duplicateConfiguration k.ownerName target))
  else
    match k.remove source with
    | (k, none) => (k, .error (.noSuchConfiguration k.ownerName source))
    | (k, some c) =>
      let renamed := { c with name := target }
      (k.put target renamed, .ok renamed)

theorem mem_configurations_of_find? {k : Container} {name : String} {c : Configuration}
    (h : k.find? name = some c) : c ∈ k.configurations :=
  List.mem_map.2 ⟨(name, c), Std.ExtTreeMap.mem_toList_iff_getElem?_eq_some.2 h, rfl⟩

theorem mem_configurations_iff {k : Container} {c : Configuration} :
    c ∈ k.configurations ↔ ∃ name, k.find? name = some c := by
  constructor
  · intro h
    obtain ⟨⟨name, d⟩, hentry, rfl⟩ := List.mem_map.1 h
    exact ⟨name, Std.ExtTreeMap.mem_toList_iff_getElem?_eq_some.1 hentry⟩
  · rintro ⟨name, h⟩
    exact mem_configurations_of_find? h

theorem mem_names_iff {k : Container} {name : String} : name ∈ k.names ↔ ∃ c, k.find? name = some c := by
  unfold names find?
  rw [Std.ExtTreeMap.mem_keys, Std.ExtTreeMap.mem_iff_isSome_getElem?, Option.isSome_iff_exists]

theorem find_eq_ok {k : Container} {name : String} {c : Configuration} :
    k.find name = .ok c ↔ k.find? name = some c := by
  unfold find
  cases k.find? name <;> simp

theorem find_eq_error {k : Container} {name : String} {x : BuildError} :
    k.find name = .error x ↔ k.find? name = none ∧ x = .noSuchConfiguration k.ownerName name := by
  unfold find
  cases k.find? name <;> simp [eq_comm]

theorem mem_configurations_of_find {k : Container} {name : String} {c : Configuration}
    (h : k.find name = .ok c) : c ∈ k.configurations :=
  mem_configurations_of_find? (find_eq_ok.1 h)

end Container

end ProjectGraph
