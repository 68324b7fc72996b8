import Mathlib.Data.List.Forall2

/-!
# Fallible computations: inversion and relational lifting

Three tools for reasoning about code in the `Except` monad.

* **Failures**: `Except.Fails P x` says that `x` can only fail with an error that has `P`.
* **Inversion**: `bind_eq_ok`, `bind_eq_error`, `map_eq_ok` and `ite_error_eq_ok` take a
  successful (or failed) sequence apart, so that a proof never unfolds `bind`.
* **Relational lifting**: `Except.Rel E R x y` says that `x` and `y` succeed together with
  values related by `R`, or fail together with errors related by `E`. It composes along `bind`
  (`Except.Rel.bind`), which is how two independently written computations are compared.
-/

universe u v

namespace Except

variable {ε ε' : Type u} {α β : Type v}

@[simp] theorem pure_eq_ok (a : α) : (pure a : Except ε α) = .ok a := rfl

@[simp] theorem ok_bind (a : α) (f : α → Except ε β) : (Except.ok a >>= f) = f a :=
  rfl

@[simp] theorem error_bind (e : ε) (f : α → Except ε β) :
    (Except.error e >>= f) = .error e := rfl

/-- A sequence succeeds exactly when both of its parts do. -/
theorem bind_eq_ok {x : Except ε α} {f : α → Except ε β} {b : β} :
    (x >>= f) = .ok b ↔ ∃ a, x = .ok a ∧ f a = .ok b := by
  cases x with
  | error e => simp
  | ok a => simp

/-- A sequence fails exactly when its first part fails or its second one does. -/
theorem bind_eq_error {x : Except ε α} {f : α → Except ε β} {e : ε} :
    (x >>= f) = .error e ↔ x = .error e ∨ ∃ a, x = .ok a ∧ f a = .error e := by
  cases x with
  | error e => simp
  | ok a => simp

theorem map_eq_ok {x : Except ε α} {f : α → β} {b : β} :
    x.map f = .ok b ↔ ∃ a, x = .ok a ∧ f a = b := by
  cases x with
  | error e => simp [Except.map]
  | ok a => simp [Except.map]

theorem map_eq_error {x : Except ε α} {f : α → β} {e : ε} :
    x.map f = .error e ↔ x = .error e := by
  cases x with
  | error e => simp [Except.map]
  | ok a => simp [Except.map]

/-- A check that fails with an error succeeds exactly when its condition is false. -/
theorem ite_error_eq_ok {c : Prop} [Decidable c] {e : ε} {x : Except ε α} {a : α} :
    (if c then .error e else x) = .ok a ↔ ¬ c ∧ x = .ok a := by
  by_cases h : c <;> simp [h]

/-- Every failure has a property. -/
def Fails (P : ε → Prop) (x : Except ε α) : Prop := ∀ e, x = .error e → P e

namespace Fails

variable {P : ε → Prop} {x : Except ε α}

theorem ok (a : α) : Fails P (.ok a) := nofun

theorem error {e : ε} (h : P e) : Fails P (.error e : Except ε α) := by
  rintro _ ⟨⟩
  exact h

theorem bind {f : α → Except ε β} (h : Fails P x) (hf : ∀ a, x = .ok a → Fails P (f a)) :
    Fails P (x >>= f) := by
  intro e he
  rcases bind_eq_error.mp he with he | ⟨a, ha, he⟩
  · exact h e he
  · exact hf a ha e he

theorem map {f : α → β} (h : Fails P x) : Fails P (x.map f) :=
  fun e he => h e (map_eq_error.mp he)

end Fails

/-- **Relational lifting.** The two results succeed together, with related values, or fail
together, with related errors. -/
inductive Rel (E : ε → ε' → Prop) (R : α → β → Prop) : Except ε α → Except ε' β → Prop
  | ok {a : α} {b : β} (h : R a b) : Rel E R (.ok a) (.ok b)
  | error {e : ε} {e' : ε'} (h : E e e') : Rel E R (.error e) (.error e')

namespace Rel

variable {E : ε → ε' → Prop} {R : α → β → Prop}

/-- Related computations followed by related continuations are related. -/
theorem bind {α' β' : Type v} {S : α' → β' → Prop} {x : Except ε α} {y : Except ε' β}
    {f : α → Except ε α'} {g : β → Except ε' β'} (h : Rel E R x y)
    (hfg : ∀ a b, x = .ok a → y = .ok b → R a b → Rel E S (f a) (g b)) :
    Rel E S (x >>= f) (y >>= g) := by
  cases h with
  | ok h => exact hfg _ _ rfl rfl h
  | error h => exact .error h

theorem map {α' β' : Type v} {S : α' → β' → Prop} {x : Except ε α} {y : Except ε' β}
    {f : α → α'} {g : β → β'} (h : Rel E R x y) (hfg : ∀ a b, R a b → S (f a) (g b)) :
    Rel E S (x.map f) (y.map g) := by
  cases h with
  | ok h => exact .ok (hfg _ _ h)
  | error h => exact .error h

/-- If one side succeeds, so does the other, with a related value. -/
theorem of_ok_left {x : Except ε α} {y : Except ε' β} {a : α} (h : Rel E R x y)
    (hx : x = .ok a) : ∃ b, y = .ok b ∧ R a b := by
  cases h with
  | ok h => cases hx; exact ⟨_, rfl, h⟩
  | error h => cases hx

/-- Every result relates to itself when both relations are reflexive. -/
theorem refl {E : ε → ε → Prop} {R : α → α → Prop} (hE : ∀ e, E e e) (hR : ∀ a, R a a)
    (x : Except ε α) : Rel E R x x := by
  cases x with
  | error e => exact .error (hE e)
  | ok a => exact .ok (hR a)

end Rel

end Except
