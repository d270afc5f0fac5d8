import ProjectGraph.Dependency.Edge
import ProjectGraph.Dependency.Module

/-!
A dependency that a configuration declares: on a published module, or on another project of the build.
Modules are the same if all their parts are, edges if their identities are.
-/

namespace ProjectGraph

inductive Dependency where
  | module (dependency : ModuleDependency)
  | project (edge : Edge)
  deriving DecidableEq, Inhabited

namespace Dependency

def request : Dependency → Request
  | .module m => m.request
  | .project e => e.request

def edge? : Dependency → Option Edge
  | .module _ => none
  | .project e => some e

theorem mem_filterMap_edge? {ds : List Dependency} {e : Edge} : e ∈ ds.filterMap edge? ↔ .project e ∈ ds := by
  rw [List.mem_filterMap]
  constructor
  · rintro ⟨d, hd, he⟩
    cases d with
    | module m => cases he
    | project x =>
      cases he
      exact hd
  · intro he
    exact ⟨_, he, rfl⟩

def render : Dependency → String
  | .module m => m.render
  | .project e => e.render

instance : BEq Dependency where
  beq
    | .module a, .module b => decide (a = b)
    | .project a, .project b => a == b
    | _, _ => false

@[simp] theorem module_beq_module {a b : ModuleDependency} :
    (Dependency.module a == .module b) = decide (a = b) := rfl

@[simp] theorem project_beq_project {a b : Edge} :
    (Dependency.project a == .project b) = (a == b) := rfl

@[simp] theorem module_beq_project {a : ModuleDependency} {b : Edge} :
    (Dependency.module a == .project b) = false := rfl

@[simp] theorem project_beq_module {a : Edge} {b : ModuleDependency} :
    (Dependency.project a == .module b) = false := rfl

instance : EquivBEq Dependency where
  rfl {a} := by cases a <;> simp
  symm {a b} h := by
    cases a <;> cases b <;> simp_all
    exact BEq.symm h
  trans {a b c} h h' := by
    cases a <;> cases b <;> cases c <;> simp_all
    exact BEq.trans h h'

end Dependency

end ProjectGraph
