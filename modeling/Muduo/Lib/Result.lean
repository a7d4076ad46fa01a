/-
Taking a successful `Except` computation apart.

A computation written in `do` notation that ended in `.ok` ran every one of its steps
to `.ok`.  These are the lemmas that peel the steps off one at a time; no client
unfolds the monad.
-/
import Mathlib.Logic.Basic

namespace Except

variable {ε α β : Type}

theorem bind_eq_ok {x : Except ε α} {f : α → Except ε β} {b : β} :
    (x >>= f) = .ok b ↔ ∃ a, x = .ok a ∧ f a = .ok b := by
  cases x <;> simp [Bind.bind, Except.bind]

theorem pure_eq_ok {a b : α} : (pure a : Except ε α) = .ok b ↔ a = b := by
  simp [pure, Except.pure]

theorem map_eq_ok {x : Except ε α} {f : α → β} {b : β} :
    x.map f = .ok b ↔ ∃ a, x = .ok a ∧ f a = b := by
  cases x <;> simp [Except.map]

theorem toOption_eq_some {x : Except ε α} {a : α} : x.toOption = some a ↔ x = .ok a := by
  cases x <;> simp [Except.toOption]

/-! ### Computations with one way to fail -/

/-- The computation ends in `.ok`, or in the error `e`. -/
def OkOr (e : ε) (x : Except ε α) : Prop :=
  (∃ a, x = .ok a) ∨ x = .error e

/-- A step after another fails as the one or the other does. -/
theorem OkOr.bind {e : ε} {x : Except ε α} {f : α → Except ε β} (h : x.OkOr e)
    (hf : ∀ a, x = .ok a → (f a).OkOr e) : (x >>= f).OkOr e := by
  rcases h with ⟨a, rfl⟩ | rfl
  · exact hf a rfl
  · exact .inr rfl

end Except
