/-!
Paths of files. A path is kept as it was given; two paths are the same if they have the same components.
Repeated separators, `.` behind the first place and a separator at the end make no component, so `a//b`,
`a/./b` and `a/b/` are `a/b`. A leading `.` counts, and `..` is a component like any other.

Paths are compared far more often than they are made, so a path carries its components.
-/

namespace ProjectGraph

/-- What two spellings of one path share. -/
structure FilePath.Components where
  absolute : Bool
  leadingDot : Bool
  /-- The last one in front, where different paths mostly differ. -/
  names : List String
  deriving DecidableEq

namespace FilePath.Components

def ofText (text : String) : Components :=
  let pieces := text.toList.splitOn '/'
  { absolute := text.toList.head? == some '/'
    leadingDot := pieces.head? == some ['.']
    names := ((pieces.filter fun piece => piece != [] && piece != ['.']).map String.ofList).reverse }

instance : Ord Components :=
  ⟨compareLex (compareOn names) (compareLex (compareOn absolute) (compareOn leadingDot))⟩

instance : Std.TransOrd Components :=
  inferInstanceAs (Std.TransCmp
    (compareLex (compareOn names) (compareLex (compareOn absolute) (compareOn leadingDot))))

instance : Std.LawfulEqOrd Components where
  compare_self := (inferInstance : Std.ReflCmp
    (compareLex (compareOn names) (compareLex (compareOn absolute) (compareOn leadingDot)))).compare_self
  eq_of_compare {a b} h := by
    cases a; cases b
    obtain ⟨hn, h⟩ := Ordering.then_eq_eq.1 h
    obtain ⟨ha, hd⟩ := Ordering.then_eq_eq.1 h
    cases Std.LawfulEqOrd.eq_of_compare (α := List String) hn
    cases Std.LawfulEqOrd.eq_of_compare (α := Bool) ha
    cases Std.LawfulEqOrd.eq_of_compare (α := Bool) hd
    rfl

end FilePath.Components

structure FilePath where
  text : String
  components : FilePath.Components
  components_eq : components = .ofText text

namespace FilePath

/-- The path that a text spells. -/
def of (text : String) : FilePath := ⟨text, .ofText text, rfl⟩

instance : Inhabited FilePath := ⟨of ""⟩

theorem components_eq_of_text_eq {a b : FilePath} (h : a.text = b.text) : a.components = b.components := by
  rw [a.components_eq, b.components_eq, h]

/-- The same path, however it is spelt. -/
instance : BEq FilePath := ⟨fun a b => a.text == b.text || a.components == b.components⟩

theorem beq_iff {a b : FilePath} : a == b ↔ a.components = b.components := by
  have h : (a == b) = (a.text == b.text || a.components == b.components) := rfl
  simpa [h] using fun h => components_eq_of_text_eq h

instance : EquivBEq FilePath where
  rfl := beq_iff.2 rfl
  symm h := beq_iff.2 (beq_iff.1 h).symm
  trans h h' := beq_iff.2 ((beq_iff.1 h).trans (beq_iff.1 h'))

/-- By components. -/
instance : Ord FilePath :=
  ⟨fun a b => if a.text = b.text then .eq else compare a.components b.components⟩

theorem compare_eq (a b : FilePath) : compare a b = compare a.components b.components := by
  show (if a.text = b.text then Ordering.eq else compare a.components b.components) = _
  split
  · rename_i h
    rw [components_eq_of_text_eq h]
    exact Std.ReflCmp.compare_self.symm
  · rfl

instance : Std.TransOrd FilePath where
  eq_swap := by
    intro a b
    rw [compare_eq, compare_eq]
    exact Std.OrientedCmp.eq_swap
  isLE_trans := by
    intro a b c
    rw [compare_eq, compare_eq, compare_eq]
    exact Std.TransCmp.isLE_trans

instance : Std.LawfulBEqOrd FilePath where
  compare_eq_iff_beq := by
    intro a b
    rw [compare_eq, beq_iff]
    exact Std.LawfulEqCmp.compare_eq_iff_eq

example : of "a//b/./c/" == of "a/b/c" := by decide
example : (of "./a" == of "a") = false := by decide

end FilePath

end ProjectGraph
