/-!
# Outcomes of steps

What a computation that may fail says about its steps: `bind_eq_ok` and `bind_eq_error` for a step
followed by another, `eq_ok_of_mapError` for one whose failure is renamed, `map_eq_ok` and
`eq_error_of_map` for one whose value is changed, `exists_eq_ok` for one that is known to succeed. A
step with a known outcome is taken by `simp`.
-/

namespace LayerBlend

variable {ε ε' α β : Type}

/-- A step that succeeds hands on its value. -/
@[simp] theorem ok_bind (a : α) (f : α → Except ε β) : (Except.ok a >>= f) = f a := rfl

/-- A step that fails is the last one. -/
@[simp] theorem error_bind (e : ε) (f : α → Except ε β) : (Except.error e >>= f) = .error e := rfl

/-- A step that succeeds has no failure to be renamed. -/
@[simp] theorem mapError_ok (a : α) (f : ε → ε') : (Except.ok a).mapError f = .ok a := rfl

/-- The failure of a step is renamed. -/
@[simp] theorem mapError_error (e : ε) (f : ε → ε') :
    (Except.error e : Except ε α).mapError f = .error (f e) := rfl

/-- A step succeeds when it does so with its failure renamed. -/
theorem eq_ok_of_mapError {x : Except ε α} {f : ε → ε'} {a : α} (h : x.mapError f = .ok a) :
    x = .ok a := by
  cases x with
  | ok b =>
    cases h
    rfl
  | error e => cases h

/-- Two steps succeed when the first one does and the second one does on its value. -/
theorem bind_eq_ok {x : Except ε α} {f : α → Except ε β} {b : β} :
    (x >>= f) = .ok b ↔ ∃ a, x = .ok a ∧ f a = .ok b := by
  cases x <;> simp

/-- Two steps fail when the first one does, or when the second one does on its value. -/
theorem bind_eq_error {x : Except ε α} {f : α → Except ε β} {e : ε} :
    (x >>= f) = .error e ↔ x = .error e ∨ ∃ a, x = .ok a ∧ f a = .error e := by
  cases x <;> simp

/-- A computation has the changed value of one that succeeds. -/
theorem map_eq_ok {x : Except ε α} {f : α → β} {b : β} :
    x.map f = .ok b ↔ ∃ a, x = .ok a ∧ f a = b := by
  cases x <;> simp [Except.map]

/-- A computation fails when it does so with its value changed. -/
theorem eq_error_of_map {x : Except ε α} {f : α → β} {e : ε} (h : x.map f = .error e) :
    x = .error e := by
  cases x with
  | ok a => cases h
  | error fault =>
    cases h
    rfl

/-- A computation that is known to succeed has a value. -/
theorem exists_eq_ok {x : Except ε α} (h : x.isOk = true) : ∃ a, x = .ok a := by
  cases x with
  | ok a => exact ⟨a, rfl⟩
  | error _ => exact absurd h Bool.false_ne_true

/-- A computation whose value is known to have a property has such a value. -/
theorem exists_eq_ok_and {x : Except ε α} {p : α → Prop} [DecidablePred p]
    (h : x.map (fun a => decide (p a)) = .ok true) : ∃ a, x = .ok a ∧ p a := by
  obtain ⟨a, ha, hp⟩ := map_eq_ok.mp h
  exact ⟨a, ha, of_decide_eq_true hp⟩

end LayerBlend
