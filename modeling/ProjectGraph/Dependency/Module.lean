import ProjectGraph.Dependency.Request

/-!
Dependencies on modules published outside the build, and constraints on the versions of such modules.
A module is written `group:name` or `group:name:version`.
-/

namespace ProjectGraph

structure ModuleDependency where
  group : String
  name : String
  version : Option String
  request : Request
  deriving DecidableEq, Inhabited

namespace ModuleDependency

/-- The version behind a last colon; nothing there means that none is asked for. -/
def version? (cs : List Char) : Option String :=
  if cs.isEmpty then none else some (String.ofList cs)

/-- Reads `group:name[:version]`; group and name must not be empty. -/
def parse? (text : String) : Option ModuleDependency :=
  match text.toList.splitOn ':' with
  | group :: name :: version =>
    if group.isEmpty || name.isEmpty then none
    else match version with
      | [] => some ⟨String.ofList group, String.ofList name, none, .targeting none⟩
      | [v] => some ⟨String.ofList group, String.ofList name, version? v, .targeting none⟩
      | _ => none
  | _ => none

def render (m : ModuleDependency) : String := coordinates m.group m.name m.version

end ModuleDependency

/-- A version that a module must have if something else brings it in. -/
structure Constraint where
  group : String
  name : String
  version : String
  reason : Option String
  deriving DecidableEq, Inhabited

def Constraint.render (c : Constraint) : String :=
  "constraint " ++ coordinates c.group c.name (some c.version)

end ProjectGraph
