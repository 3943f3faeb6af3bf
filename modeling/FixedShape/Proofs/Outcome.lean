/-
Module: FixedShape.Proofs.Outcome
Purpose: How a computation that may fail comes to succeed: each of its parts has succeeded.
-/
import Mathlib.Data.List.Forall2

namespace FixedShape.Outcome

variable {ε α β : Type}

/-- A sequence succeeds if its first part does, and then the rest does. -/
theorem bind_eq_ok {x : Except ε α} {f : α → Except ε β} {b : β} :
    (x >>= f) = .ok b ↔ ∃ a, x = .ok a ∧ f a = .ok b := by
  cases x with
  | error e => simp [bind, Except.bind]
  | ok a => simp [bind, Except.bind]

/-- A sequence fails with its first part, or else with the rest. -/
theorem bind_eq_error {x : Except ε α} {f : α → Except ε β} {e : ε} :
    (x >>= f) = .error e ↔ x = .error e ∨ ∃ a, x = .ok a ∧ f a = .error e := by
  cases x with
  | error e => simp [bind, Except.bind]
  | ok a => simp [bind, Except.bind]

/-- A value is put in its place once it is read. -/
theorem bind_pure_eq_ok {x : Except ε α} {f : α → β} {b : β} :
    (do return f (← x)) = Except.ok b ↔ ∃ a, x = .ok a ∧ b = f a := by
  cases x with
  | error e => simp [bind, Except.bind]
  | ok a => simp [bind, Except.bind, pure, Except.pure, eq_comm]

theorem map_eq_ok {x : Except ε α} {f : α → β} {b : β} :
    x.map f = .ok b ↔ ∃ a, x = .ok a ∧ f a = b := by
  cases x with
  | error e => simp [Except.map]
  | ok a => simp [Except.map]

/-- What is seen of a result does not change an error. -/
@[simp] theorem map_eq_error {x : Except ε α} {f : α → β} {e : ε} :
    f <$> x = .error e ↔ x = .error e := by
  cases x with
  | error e => simp
  | ok a => simp

@[simp] theorem pure_ne_error {a : α} {e : ε} : (pure a : Except ε α) ≠ .error e := nofun

theorem mapError_eq_ok {δ : Type} {x : Except ε α} {f : ε → δ} {a : α} :
    x.mapError f = .ok a ↔ x = .ok a := by
  cases x <;> simp [Except.mapError]

/-- A computation behind a refusal succeeds if the reason of the refusal is absent. -/
theorem ite_throw_eq_ok {refused : Prop} [Decidable refused] {error : ε}
    {skipped : β → Except ε α} {next : Except ε α} {a : α} :
    (if refused then throw error >>= skipped else next) = .ok a ↔ ¬ refused ∧ next = .ok a := by
  by_cases h : refused
  · simp [h, throw, throwThe, MonadExceptOf.throw, bind, Except.bind]
  · simp [h]

/-- A computation behind a refusal fails with the refusal, or without its reason on its own. -/
theorem ite_throw_eq_error {refused : Prop} [Decidable refused] {error e : ε}
    {skipped : β → Except ε α} {next : Except ε α} :
    (if refused then throw error >>= skipped else next) = .error e ↔
      (refused ∧ e = error) ∨ ¬ refused ∧ next = .error e := by
  by_cases h : refused
  · simp [h, throw, throwThe, MonadExceptOf.throw, bind, Except.bind, eq_comm]
  · simp [h]

/-- All members of a list are read, each to the value at its place. -/
theorem mapM_eq_ok {f : α → Except ε β} {xs : List α} {ys : List β} :
    xs.mapM f = .ok ys ↔ List.Forall₂ (fun x y => f x = .ok y) xs ys := by
  induction xs generalizing ys with
  | nil => cases ys <;> simp [pure, Except.pure]
  | cons x xs ih =>
      rw [List.mapM_cons]
      simp only [bind_eq_ok, ih]
      constructor
      · rintro ⟨y, hy, rest, hrest, heq⟩
        cases heq
        exact .cons hy hrest
      · intro h
        cases h with
        | cons hy hrest => exact ⟨_, hy, _, hrest, rfl⟩

end FixedShape.Outcome
