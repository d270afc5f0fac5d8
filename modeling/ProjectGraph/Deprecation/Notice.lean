/-!
Notices of deprecated use. A notice never stops what it is about; it says what was used, what to do instead
and where to read on.
-/

namespace ProjectGraph

structure Notice where
  summary : String
  advice : Option String
  guide : Option String
  deriving DecidableEq, Inhabited

namespace Notice

/-- The place in the guide to a major version. -/
def guideSection (major : Nat) (name : String) : String :=
  "upgrading_version_" ++ toString major ++ "#" ++ name

/-- Where both notices about direct use of a project dependency send the reader. -/
def directUseGuide : String := guideSection 8 "deprecate_self_resolving_dependency"

/-- The files of a project dependency were resolved directly. -/
def directResolution : Notice where
  summary := "Directly resolving a project dependency's files"
  advice := some "Add the dependency to a resolvable configuration and resolve the configuration."
  guide := some directUseGuide

/-- The tasks of a project dependency were asked for directly. -/
def buildDependencies : Notice where
  summary := "Accessing the build dependencies of a project dependency"
  advice := some
    "Add the dependency to a resolvable configuration and use the configuration to track task dependencies."
  guide := some directUseGuide

/-- What to use in place of a configuration, if there is anything. -/
def replacementAdvice : List String → Option String
  | [] => none
  | [only] => some ("Please use the " ++ only ++ " configuration instead.")
  | many => some ("Please use one of the " ++ ", ".intercalate many ++ " configurations instead.")

/-- A deprecated configuration was selected as a target. -/
def consumption (configuration : String) (replacements : List String) : Notice where
  summary := "The " ++ configuration ++ " configuration has been deprecated for consumption"
  advice := replacementAdvice replacements
  guide := none

def render (n : Notice) : String :=
  n.summary ++ ". This behavior is deprecated and will become an error in the next major version." ++
    (n.advice.map (" " ++ ·)).getD "" ++
    (n.guide.map fun g => " See " ++ g ++ " for more details.").getD ""

end Notice

end ProjectGraph
