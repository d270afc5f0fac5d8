import ProjectGraph.Text.Blank

/-!
Absolute paths of projects in a build, such as `:libs:core`; the root project is `:`. Each segment is
written with a colon in front, so a path is read by cutting at the colons. Paths are ordered segment by
segment, which puts a project directly in front of everything below it.
-/

namespace ProjectGraph

/-- Where a project stands, from the root downwards. -/
structure ProjectPath where
  segments : List String
  deriving DecidableEq, Hashable, Inhabited

/-- Why a text or a name makes no path. -/
inductive PathFault where
  | noLeadingColon (raw : String)
  | badSegment (raw : String)
  | badChild (parent : ProjectPath) (name : String)
  | notATask (raw : String)
  | noTaskName (raw : String)
  deriving DecidableEq

namespace ProjectPath

def root : ProjectPath := ⟨[]⟩

def isRoot (p : ProjectPath) : Bool := p.segments.isEmpty

theorem isRoot_iff {p : ProjectPath} : p.isRoot = true ↔ p = root := by
  obtain ⟨segments⟩ := p
  simp [isRoot, root]

/-- The path as it is written. -/
def render (p : ProjectPath) : String :=
  if p.segments.isEmpty then ":" else p.segments.foldl (fun text s => text ++ ":" ++ s) ""

/-- A written segment is not empty and has no white space. -/
def isSegment (cs : List Char) : Bool :=
  !cs.isEmpty && !cs.any isBlank

def parse (raw : String) : Except PathFault ProjectPath :=
  match raw.toList with
  | ':' :: rest =>
    if rest.isEmpty then .ok root
    else
      let pieces := rest.splitOn ':'
      if pieces.all isSegment then .ok ⟨pieces.map String.ofList⟩ else .error (.badSegment raw)
  | _ => .error (.noLeadingColon raw)

/-- The path one step down. A name without characters or with a colon would not be one segment. -/
def child (p : ProjectPath) (name : String) : Except PathFault ProjectPath :=
  if name.isEmpty || name.toList.contains ':' then .error (.badChild p name)
  else .ok ⟨p.segments ++ [name]⟩

/-- The path one step up; the root has none. -/
def parent? (p : ProjectPath) : Option ProjectPath :=
  if p.segments.isEmpty then none else some ⟨p.segments.dropLast⟩

/-- The last segment; the root has none. -/
def name? (p : ProjectPath) : Option String := p.segments.getLast?

/-- The order of lists of segments. Paths of one build mostly begin alike, so equality is asked first. -/
def compareSegments : List String → List String → Ordering
  | [], [] => .eq
  | [], _ :: _ => .lt
  | _ :: _, [] => .gt
  | a :: as, b :: bs => if a = b then compareSegments as bs else compare a b

theorem compareSegments_eq (as bs : List String) : compareSegments as bs = compare as bs := by
  induction as generalizing bs with
  | nil => cases bs <;> rfl
  | cons a as ih =>
    cases bs with
    | nil => rfl
    | cons b bs =>
      change _ = List.compareLex compare (a :: as) (b :: bs)
      rw [compareSegments, ih, List.compareLex_cons_cons]
      split
      · rename_i h
        simp [h]
        rfl
      · rename_i h
        cases hc : compare a b with
        | eq => exact absurd (Std.LawfulEqCmp.eq_of_compare hc) h
        | lt => rfl
        | gt => rfl

instance : Ord ProjectPath := ⟨fun a b => compareSegments a.segments b.segments⟩

theorem compare_eq (a b : ProjectPath) : compare a b = compare a.segments b.segments :=
  compareSegments_eq a.segments b.segments

instance : Std.TransOrd ProjectPath where
  eq_swap := by
    intro a b
    rw [compare_eq, compare_eq]
    exact Std.OrientedCmp.eq_swap
  isLE_trans := by
    intro a b c
    rw [compare_eq, compare_eq, compare_eq]
    exact Std.TransCmp.isLE_trans

instance : Std.LawfulEqOrd ProjectPath where
  compare_self := by
    intro a
    rw [compare_eq]
    exact Std.ReflCmp.compare_self
  eq_of_compare := by
    intro a b h
    cases a; cases b
    rw [compare_eq] at h
    exact congrArg mk (Std.LawfulEqCmp.eq_of_compare h)

end ProjectPath

/-- The fault as it stands in a message. -/
def PathFault.text : PathFault → String
  | .noLeadingColon raw => raw ++ " (must start with ':')"
  | .badSegment raw => raw
  | .badChild parent name => parent.render ++ " + '" ++ name ++ "'"
  | .notATask raw => raw ++ " (not a task path)"
  | .noTaskName raw => raw ++ " (missing task name)"

end ProjectGraph
