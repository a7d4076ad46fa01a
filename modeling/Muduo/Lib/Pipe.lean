/-
A byte pipe: what has gone out of it, and what it still holds.

A writer that passes on what it can at once and keeps the rest loses nothing and
reorders nothing as long as it only passes bytes on directly while it holds none.  The
three moves below are all such a writer makes; `total` is what they conserve.
-/
import Mathlib.Data.List.Basic

/-- The elements that have left, and the ones held back behind them. -/
structure Pipe (α : Type) where
  out : List α
  held : List α

namespace Pipe

variable {α : Type}

/-- Everything that was ever put in, in order. -/
def total (p : Pipe α) : List α := p.out ++ p.held

/-- The first `k` elements of `xs` leave at once, the rest is held. -/
def offer (p : Pipe α) (xs : List α) (k : Nat) : Pipe α :=
  { out := p.out ++ xs.take k, held := p.held ++ xs.drop k }

/-- The first `k` held elements leave. -/
def drain (p : Pipe α) (k : Nat) : Pipe α :=
  { out := p.out ++ p.held.take k, held := p.held.drop k }

/-- Offering adds at the end, provided nothing overtakes what is held. -/
theorem total_offer {p : Pipe α} {xs : List α} {k : Nat} (h : p.held = [] ∨ k = 0) :
    (p.offer xs k).total = p.total ++ xs := by
  rcases h with h | rfl
  · simp [total, offer, h]
  · simp [total, offer]

@[simp] theorem total_drain (p : Pipe α) (k : Nat) : (p.drain k).total = p.total := by
  simp [total, drain]

/-- Draining twice is draining the sum. -/
@[simp] theorem drain_drain (p : Pipe α) (k n : Nat) : (p.drain k).drain n = p.drain (k + n) := by
  simp [drain, List.take_add, List.drop_drop, List.append_assoc]

/-- There is no more to drain than what is held. -/
theorem drain_min (p : Pipe α) (k : Nat) : p.drain (min k p.held.length) = p.drain k := by
  rcases Nat.le_total k p.held.length with h | h
  · rw [Nat.min_eq_left h]
  · rw [Nat.min_eq_right h]
    simp [drain, List.take_of_length_le h, List.drop_eq_nil_of_le h]

end Pipe
