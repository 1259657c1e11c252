/-!
# Bindings

A map from names to values; the latest binding of a name counts.
-/

namespace FourState

/-- Named values, the latest binding first. -/
structure Bindings (value : Type) where
  /-- The pairs of name and value. -/
  entries : List (String × value)

namespace Bindings

variable {value : Type}

/-- No name is bound. -/
def empty : Bindings value where
  entries := []

/-- The value of a name. -/
def get? (bindings : Bindings value) (name : String) : Option value :=
  bindings.entries.lookup name

/-- Bind a name, in place of any earlier binding. -/
def bind (bindings : Bindings value) (name : String) (bound : value) : Bindings value where
  entries := (name, bound) :: bindings.entries.filter fun entry => entry.1 != name

@[simp] theorem get?_empty (name : String) : (empty : Bindings value).get? name = none :=
  rfl

@[simp] theorem get?_bind (bindings : Bindings value) (name other : String) (bound : value) :
    (bindings.bind name bound).get? other =
      if other = name then some bound else bindings.get? other := by
  unfold get? bind
  by_cases same : other = name
  · subst same
    simp
  · simp only [List.lookup_cons, beq_eq_false_iff_ne.2 same, same, ↓reduceIte]
    induction bindings.entries with
    | nil => rfl
    | cons entry entries inductionHypothesis =>
        obtain ⟨key, stored⟩ := entry
        rw [List.filter_cons, List.lookup_cons]
        by_cases dropped : key = name
        · have differs : (other == key) = false := by
            rw [dropped]
            exact beq_eq_false_iff_ne.2 same
          simp [dropped, inductionHypothesis, beq_eq_false_iff_ne.2 same]
        · simp [dropped, inductionHypothesis, List.lookup_cons]

/-- A name is bound to the new value if it is the new name, and else as before. -/
theorem get?_bind_eq_some_iff
    (bindings : Bindings value)
    (name other : String)
    (bound found : value) :
    (bindings.bind name bound).get? other = some found ↔
      (other = name ∧ found = bound) ∨ (other ≠ name ∧ bindings.get? other = some found) := by
  rw [get?_bind]
  by_cases same : other = name
  · simp only [same, if_true, true_and, ne_eq, not_true_eq_false, false_and, or_false,
      Option.some.injEq]
    exact eq_comm
  · simp [same]

end Bindings
end FourState
