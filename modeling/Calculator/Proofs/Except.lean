namespace Calculator

variable {ε α β : Type}

@[simp] theorem pure_eq_ok (x : α) : (pure x : Except ε α) = .ok x := rfl

@[simp] theorem throw_eq_error (e : ε) : (throw e : Except ε α) = .error e := rfl

@[simp] theorem ok_bind (x : α) (f : α → Except ε β) : (Except.ok x >>= f) = f x := rfl

@[simp] theorem error_bind (e : ε) (f : α → Except ε β) :
    (Except.error e >>= f) = .error e := rfl

theorem bind_eq_ok {x : Except ε α} {f : α → Except ε β} {b : β} :
    (x >>= f) = .ok b ↔ ∃ a, x = .ok a ∧ f a = .ok b := by
  cases x <;> simp

section Renaming

variable {δ : Type} (g : ε → δ)

@[simp] theorem mapError_ok (x : α) : (Except.ok x : Except ε α).mapError g = .ok x := rfl

@[simp] theorem mapError_error (e : ε) : (Except.error e : Except ε α).mapError g = .error (g e) :=
  rfl

/-- Renaming what a computation fails with renames what its parts fail with. -/
theorem mapError_bind (x : Except ε α) (f : α → Except ε β) :
    (x >>= f).mapError g = x.mapError g >>= fun a => (f a).mapError g := by
  cases x <;> rfl

theorem mapError_map (x : Except ε α) (f : α → β) :
    (x.map f).mapError g = (x.mapError g).map f := by
  cases x <;> rfl

end Renaming

/-- Fails with none of these errors. -/
def Avoids (bad : ε → Prop) (x : Except ε α) : Prop := ∀ e, x = .error e → ¬ bad e

@[simp] theorem avoids_ok (bad : ε → Prop) (a : α) : Avoids bad (.ok a) := by
  intro e h
  cases h

@[simp] theorem avoids_error {bad : ε → Prop} {e : ε} :
    Avoids bad (.error e : Except ε α) ↔ ¬ bad e := by
  simp [Avoids]

theorem avoids_bind {bad : ε → Prop} {x : Except ε α} {f : α → Except ε β} (hx : Avoids bad x)
    (hf : ∀ a, x = .ok a → Avoids bad (f a)) : Avoids bad (x >>= f) := by
  cases x with
  | error e => simpa using hx
  | ok a => exact hf a rfl

end Calculator
