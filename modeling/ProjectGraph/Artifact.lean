import ProjectGraph.Path.Task
import ProjectGraph.Path.File

/-!
Files that a configuration publishes, each with the tasks that build it. Two artifacts are the same if all
their parts are; their files may be spelt differently.
-/

namespace ProjectGraph

structure Artifact where
  name : String
  extension : String
  classifier : Option String
  file : FilePath
  builtBy : List TaskPath
  deriving Inhabited

namespace Artifact

def defaultExtension : String := "jar"

/-- The name of the file without its place. -/
def render (a : Artifact) : String :=
  match a.classifier with
  | some c => a.name ++ "-" ++ c ++ "." ++ a.extension
  | none => a.name ++ "." ++ a.extension

/-- All parts, the file as its components. -/
def identity (a : Artifact) : String × String × Option String × FilePath.Components × List TaskPath :=
  (a.name, a.extension, a.classifier, a.file.components, a.builtBy)

instance : BEq Artifact where
  beq a b := a.name == b.name && a.extension == b.extension && a.classifier == b.classifier &&
    a.file == b.file && a.builtBy == b.builtBy

theorem beq_iff {a b : Artifact} : a == b ↔ a.identity = b.identity := by
  have h : (a == b) = (a.name == b.name && a.extension == b.extension && a.classifier == b.classifier &&
    a.file == b.file && a.builtBy == b.builtBy) := rfl
  simp [h, identity, FilePath.beq_iff, and_assoc]

instance : EquivBEq Artifact where
  rfl := beq_iff.2 rfl
  symm h := beq_iff.2 (beq_iff.1 h).symm
  trans h h' := beq_iff.2 ((beq_iff.1 h).trans (beq_iff.1 h'))

/-- Part by part. -/
instance : Ord Artifact :=
  ⟨compareLex (compareOn name) (compareLex (compareOn extension) (compareLex (compareOn classifier)
    (compareLex (compareOn file) (compareOn builtBy))))⟩

instance : Std.TransOrd Artifact :=
  inferInstanceAs (Std.TransCmp (compareLex (compareOn name) (compareLex (compareOn extension)
    (compareLex (compareOn classifier) (compareLex (compareOn file) (compareOn builtBy))))))

instance : Std.LawfulBEqOrd Artifact where
  compare_eq_iff_beq {a b} := by
    change compareLex _ _ _ _ = _ ↔ _
    simp [compareLex_eq_eq, compareOn, beq_iff, identity, Std.LawfulBEqOrd.compare_eq_iff_beq (α := FilePath),
      FilePath.beq_iff]

end Artifact

end ProjectGraph
