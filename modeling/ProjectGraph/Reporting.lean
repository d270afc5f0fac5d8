import ProjectGraph.Deprecation.Notice
import ProjectGraph.Error

/-!
Results of operations that raise notices on the way. A notice is raised towards a reporter; it stays raised
when the operation fails later.
-/

namespace ProjectGraph

/-- Which reporter of a store. -/
structure ReporterId where
  index : Nat
  deriving DecidableEq, Inhabited

structure Raised where
  reporter : ReporterId
  notice : Notice
  deriving DecidableEq

/-- The notices that were raised, in order, and what came out. -/
structure Reporting (α : Type) where
  notices : List Raised
  result : Except BuildError α

namespace Reporting

variable {α β : Type}

def fail (e : BuildError) : Reporting α := ⟨[], .error e⟩

def ofExcept (result : Except BuildError α) : Reporting α := ⟨[], result⟩

def raise (reporter : ReporterId) (notice : Notice) : Reporting Unit := ⟨[⟨reporter, notice⟩], .ok ()⟩

/-- The same with earlier notices in front. -/
def after (earlier : List Raised) (r : Reporting α) : Reporting α := { r with notices := earlier ++ r.notices }

/-- Goes on with the value, if there is one. -/
def andThen (r : Reporting α) (f : α → Reporting β) : Reporting β :=
  match r.result with
  | .error e => ⟨r.notices, .error e⟩
  | .ok a => (f a).after r.notices

instance : Monad Reporting where
  pure a := ⟨[], .ok a⟩
  bind := andThen

@[simp] theorem pure_eq (a : α) : (pure a : Reporting α) = ⟨[], .ok a⟩ := rfl

@[simp] theorem ok_bind (notices : List Raised) (a : α) (f : α → Reporting β) :
    (⟨notices, .ok a⟩ : Reporting α) >>= f = (f a).after notices := rfl

@[simp] theorem error_bind (notices : List Raised) (e : BuildError) (f : α → Reporting β) :
    (⟨notices, .error e⟩ : Reporting α) >>= f = ⟨notices, .error e⟩ := rfl

@[simp] theorem map_eq (f : α → β) (r : Reporting α) : f <$> r = ⟨r.notices, r.result.map f⟩ := by
  obtain ⟨notices, result⟩ := r
  cases result <;> simp [Functor.map, andThen, after, Except.map]

@[simp] theorem after_nil (r : Reporting α) : r.after [] = r := rfl

@[simp] theorem after_after (first second : List Raised) (r : Reporting α) :
    (r.after second).after first = r.after (first ++ second) := by
  simp [after]

/-- A sequence has a value if both halves have one. -/
theorem bind_eq_ok {r : Reporting α} {f : α → Reporting β} {b : β} :
    (r >>= f).result = .ok b ↔ ∃ a, r.result = .ok a ∧ (f a).result = .ok b := by
  obtain ⟨notices, result⟩ := r
  cases result with
  | error e => simp
  | ok a => simp [after]

/-- A sequence fails where its first half fails, or its second half after a value of the first one. -/
theorem bind_eq_error {r : Reporting α} {f : α → Reporting β} {x : BuildError} :
    (r >>= f).result = .error x ↔ r.result = .error x ∨ ∃ a, r.result = .ok a ∧ (f a).result = .error x := by
  obtain ⟨notices, result⟩ := r
  cases result with
  | error e => simp
  | ok a => simp [after]

@[simp] theorem result_ofExcept (result : Except BuildError α) : (ofExcept result).result = result := rfl

@[simp] theorem notices_ofExcept (result : Except BuildError α) : (ofExcept result).notices = [] := rfl

/-- A sequence whose second half raises nothing raises what its first half does. -/
theorem notices_bind {r : Reporting α} {f : α → Reporting β} (h : ∀ a, (f a).notices = []) :
    (r >>= f).notices = r.notices := by
  obtain ⟨notices, result⟩ := r
  cases result with
  | error e => rfl
  | ok a => simp [after, h]

end Reporting

end ProjectGraph
