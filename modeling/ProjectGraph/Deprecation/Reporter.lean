import ProjectGraph.Deprecation.Notice
import ProjectGraph.Deprecation.WarningMode

/-!
The reporter of a build keeps every notice, repeated ones too, and shows them as its mode says. Showing is
writing lines to the log: `shown` for one notice, `finish` for the build as a whole.
-/

namespace ProjectGraph

structure Reporter where
  mode : WarningMode
  /-- The notices that it was handed, the last one in front. -/
  heard : List Notice
  deriving Inhabited

namespace Reporter

/-- A reporter that has not heard of anything. -/
def start (mode : WarningMode) : Reporter := ⟨mode, []⟩

/-- All notices, in order. -/
def notices (r : Reporter) : List Notice := r.heard.reverse

def count (r : Reporter) : Nat := r.heard.length

def report (r : Reporter) (n : Notice) : Reporter := { r with heard := n :: r.heard }

@[simp] theorem notices_report (r : Reporter) (n : Notice) : (r.report n).notices = r.notices ++ [n] := by
  simp [notices, report]

theorem count_eq (r : Reporter) : r.count = r.notices.length := by
  simp [notices, count]

/-- The lines that a notice gives at once. -/
def shown (r : Reporter) (n : Notice) : List String :=
  if r.mode.showsEach then [n.render] else []

/-- The line that speaks for all notices of a build. -/
def summaryLine (count : Nat) : String :=
  "Deprecated features were used in this build (" ++ toString count ++
    " deprecation(s)). Use warning mode 'all' to show the individual deprecation warnings."

/-- The lines at the end of a build, and its number of notices unless they make it fail. -/
def finish (r : Reporter) : List String × Except BuildError Nat :=
  match r.mode, r.count with
  | _, 0 => ([], .ok 0)
  | .summary, n => ([summaryLine n], .ok n)
  | .fail, n => ([], .error (.deprecationsFailed n))
  | _, n => ([], .ok n)

end Reporter

end ProjectGraph
