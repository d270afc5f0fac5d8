import ProjectGraph.SortedMap

/-!
Named attributes that a dependency asks for, such as `usage=java-api`. They are a map, so their order and
what a key held before do not count.
-/

namespace ProjectGraph

abbrev Attributes := SortedMap String String

namespace Attributes

def render (a : Attributes) : String :=
  "\x7b" ++ ", ".intercalate (a.entries.map fun e => e.1 ++ "=" ++ e.2) ++ "\x7d"

end Attributes

end ProjectGraph
