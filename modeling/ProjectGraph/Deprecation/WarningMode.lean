import ProjectGraph.Error
import ProjectGraph.Text.Blank

/-!
How notices come to the user: each one as it happens, one line at the end, not at all, or each one and a
failure at the end.
-/

namespace ProjectGraph

inductive WarningMode where
  | all
  | summary
  | silent
  | fail
  deriving DecidableEq, Inhabited

namespace WarningMode

def name : WarningMode → String
  | .all => "all"
  | .summary => "summary"
  | .silent => "none"
  | .fail => "fail"

/-- In the order in which messages list them. -/
def every : List WarningMode := [.all, .summary, .silent, .fail]

def ofName? (name : String) : Option WarningMode := every.find? (·.name == name)

/-- Reads a mode; blanks around it and the case of ASCII letters do not count. -/
def parse (raw : String) : Except BuildError WarningMode :=
  let lowered := (trimBlank raw).map Char.toLower
  match ofName? lowered with
  | some mode => .ok mode
  | none => .error (.settings
      ("Unknown warning mode '" ++ lowered ++ "', expected one of " ++ ", ".intercalate (every.map name)))

/-- Whether each notice is shown as it happens. -/
def showsEach : WarningMode → Bool
  | .all | .fail => true
  | .summary | .silent => false

end WarningMode

end ProjectGraph
