import ProjectGraph.Container
import ProjectGraph.Reporting

/-!
Projects. Path and reporter of a project never change; its group, name and version may, until the build is
done, and so may its configurations.
-/

namespace ProjectGraph

structure Project where
  path : ProjectPath
  group : String
  name : String
  version : String
  container : Container
  reporter : ReporterId
  deriving Inhabited

namespace Project

/-- The root project goes by its name, any other by its path. -/
def displayNameOf (path : ProjectPath) (name : String) : String :=
  if path.isRoot then "root project '" ++ name ++ "'" else "project '" ++ path.render ++ "'"

def displayName (p : Project) : String := displayNameOf p.path p.name

/-- A project as it is when it is added to a build. -/
def new (path : ProjectPath) (name : String) (reporter : ReporterId) : Project where
  path := path
  group := ""
  name := name
  version := "unspecified"
  container := .new path (displayNameOf path name)
  reporter := reporter

end Project

end ProjectGraph
