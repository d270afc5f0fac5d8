import ProjectGraph.CommandLine.Run
import ProjectGraph.Proofs.Build.Reporters

/-!
What the warning mode changes. What a command line does to a build file is the same in all modes
(`Arguments.unsettled`): the mode only settles how its notices come to the user, and whether a run that went well ends
well (`RunReport.settle`).
-/

namespace ProjectGraph

/-! ### What a mode makes of notices -/

namespace WarningMode

/-- The lines that the notices of a run give. -/
def warnings : WarningMode → List Notice → List String
  | .all, notices | .fail, notices => notices.map Notice.render
  | .summary, notices => if notices.isEmpty then [] else [Reporter.summaryLine notices.length]
  | .silent, _ => []

/-- How a run ends. A run that has failed ends in its own failure. -/
def outcome (m : WarningMode) (notices : List Notice) : Except BuildError Unit → Except BuildError Unit
  | .error e => .error e
  | .ok () => if m = .fail ∧ 0 < notices.length then .error (.deprecationsFailed notices.length) else .ok ()

end WarningMode

/-- The report on what was printed and raised, if all notices go to one reporter of the mode. -/
def RunReport.settle (m : WarningMode) (t : Transcript Unit) : RunReport :=
  let notices := t.notices.map (·.notice)
  ⟨t.lines, notices, m.warnings notices, m.outcome notices t.result⟩

namespace Store

variable {s : Store} {r : ReporterId} {raised : List Raised}

end Store

namespace Arguments

variable {b : Build} {m m' : WarningMode} {file : FilePath} {read? : String → Option ByteArray}

/-- A project whose only configuration depends on itself, and is deprecated as a target. -/
def retiredText : String :=
  "\x7b\"rootProject\":\"r\",\"projects\":[\x7b\"path\":\":\",\"configurations\":[\x7b\"name\":\"default\"," ++
    "\"deprecatedForConsumption\":[],\"dependencies\":[\x7b\"project\":\":\"\x7d]\x7d]\x7d]\x7d"

/-- Checks the build in a mode that the command line gives. -/
def checking (m : WarningMode) : Arguments := ⟨0, none, some m, .check⟩

def readRetired (_ : String) : Option ByteArray := some retiredText.toUTF8

end Arguments

end ProjectGraph
