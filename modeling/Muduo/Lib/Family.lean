/-
Members of one system, in a list that grows.

A system that starts others while those already started run on keeps them in a list.  What
one of its steps may do to the list is `Moves`; that is all one needs to know of it to have
for every member whatever the member's own steps preserve.
-/
import Muduo.Lib.Lts

namespace Lts

variable {σ α : Type} {T : Lts σ α} {P : σ → Prop} {l l' : List σ}

/-- A step of a system whose members are systems of `T`: it leaves them alone, adds one that a
run of `T` can come to, or takes one step of one of them. -/
inductive Moves (T : Lts σ α) (l : List σ) : List σ → Prop
  | stay : Moves T l l
  | add {s : σ} (new : T.Reachable s) : Moves T l (l ++ [s])
  | move {i : Nat} {s s' : σ} {a : α} (at_i : l[i]? = some s) (step : T.step s a s') :
      Moves T l (l.set i s')

namespace Moves

/-- A member after the step is a member before it, has just been added, or has come from one by
a step of its own. -/
theorem mem (h : Moves T l l') {s' : σ} (hs : s' ∈ l') :
    s' ∈ l ∨ T.Reachable s' ∨ ∃ s ∈ l, ∃ a, T.step s a s' := by
  cases h with
  | stay => exact Or.inl hs
  | add new =>
      rcases List.mem_append.mp hs with hs | hs
      · exact Or.inl hs
      · obtain rfl := List.mem_singleton.mp hs
        exact Or.inr (Or.inl new)
  | move at_i step =>
      rcases List.mem_or_eq_of_mem_set hs with hs | rfl
      · exact Or.inl hs
      · exact Or.inr (Or.inr ⟨_, List.mem_of_getElem? at_i, _, step⟩)

/-- The members stay what runs of `T` come to. -/
theorem reachable (h : Moves T l l') (hall : ∀ s ∈ l, T.Reachable s) :
    ∀ s ∈ l', T.Reachable s := by
  intro s' hs'
  rcases h.mem hs' with hs | hnew | ⟨s, hs, a, hstep⟩
  · exact hall s' hs
  · exact hnew
  · exact (hall s hs).step hstep

end Moves

end Lts
