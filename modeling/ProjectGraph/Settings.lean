import ProjectGraph.Deprecation.WarningMode
import ProjectGraph.Path.File

/-!
Settings that the environment gives. A variable that is not set, or set to nothing, leaves the initial.
-/

namespace ProjectGraph

structure Settings where
  warningMode : WarningMode
  buildFile : FilePath
  deriving Inhabited

namespace Settings

def warningModeVariable : String := "PROJDEP_WARNING_MODE"

def buildFileVariable : String := "PROJDEP_BUILD_FILE"

def initial : Settings := ⟨.summary, .of "build.json"⟩

instance : BEq Settings := ⟨fun a b => a.warningMode == b.warningMode && a.buildFile == b.buildFile⟩

/-- The settings that a look-up of variables gives. -/
def load (setting? : String → Option String) : Except BuildError Settings := do
  let given (name : String) : Option String := (setting? name).filter (!·.isEmpty)
  let warningMode ← match given warningModeVariable with
    | some raw => WarningMode.parse raw
    | none => .ok initial.warningMode
  let buildFile := match given buildFileVariable with
    | some text => .of text
    | none => initial.buildFile
  return ⟨warningMode, buildFile⟩

end Settings

end ProjectGraph
