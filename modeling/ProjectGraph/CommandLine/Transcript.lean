import ProjectGraph.Reporting

/-!
What a command prints and which notices it raises, up to its end or its failure.
-/

namespace ProjectGraph

structure Transcript (α : Type) where
  lines : List String
  notices : List Raised
  result : Except BuildError α

namespace Transcript

variable {α β : Type}

/-- A line of output. -/
def print (line : String) : Transcript Unit := ⟨[line], [], .ok ()⟩

def fail (e : BuildError) : Transcript α := ⟨[], [], .error e⟩

def ofExcept (result : Except BuildError α) : Transcript α := ⟨[], [], result⟩

/-- An operation that prints nothing. -/
def ofReporting (r : Reporting α) : Transcript α := ⟨[], r.notices, r.result⟩

/-- Goes on with the value, if there is one. -/
def andThen (t : Transcript α) (f : α → Transcript β) : Transcript β :=
  match t.result with
  | .error e => ⟨t.lines, t.notices, .error e⟩
  | .ok a =>
    let u := f a
    ⟨t.lines ++ u.lines, t.notices ++ u.notices, u.result⟩

instance : Monad Transcript where
  pure a := ⟨[], [], .ok a⟩
  bind := andThen

instance : MonadLift Reporting Transcript := ⟨ofReporting⟩

instance : MonadLift (Except BuildError) Transcript := ⟨ofExcept⟩

/-- A sequence has a value if both halves have one. -/
theorem bind_eq_ok {t : Transcript α} {f : α → Transcript β} {b : β} :
    (t >>= f).result = .ok b ↔ ∃ a, t.result = .ok a ∧ (f a).result = .ok b := by
  obtain ⟨lines, notices, result⟩ := t
  cases result with
  | error x =>
    constructor
    · intro h
      cases h
    · rintro ⟨a, ha, _⟩
      cases ha
  | ok a =>
    constructor
    · intro h
      exact ⟨a, rfl, h⟩
    · rintro ⟨a', ha', h⟩
      cases ha'
      exact h

theorem lines_bind {t : Transcript α} {f : α → Transcript β} {a : α} (h : t.result = .ok a) :
    (t >>= f).lines = t.lines ++ (f a).lines := by
  obtain ⟨lines, notices, result⟩ := t
  cases h
  rfl

end Transcript

end ProjectGraph
