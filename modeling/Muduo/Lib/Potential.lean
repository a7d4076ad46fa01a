/-
Paying for the steps of a run.

A system cannot run on without cause if there is a potential that some steps can only lower: what
such a step takes from it was put there before, by an action that is a cause.  Then a run has no
more of these steps than its causes pay for.
-/
import Mathlib
import Muduo.Lib.Lts

namespace Lts

variable {σ α : Type} {T : Lts σ α}

/-- The steps that count are paid for by the potential that the path starts with and by what its
actions add; the rest of it is left. -/
theorem Path.paid {potential : σ → Nat} {counts : α → Bool} {adds : α → Nat}
    (hstep : ∀ m a m', T.Reachable m → T.step m a m' →
      (if counts a then 1 else 0) + potential m' ≤ potential m + adds a)
    {s s' : σ} {as : List α} (hs : T.Reachable s) (hp : Path T s as s') :
    as.countP counts + potential s' ≤ potential s + (as.map adds).sum := by
  induction hp with
  | nil => simp
  | snoc hp hlast ih =>
      have hle := hstep _ _ _ (hs.path hp) hlast
      rw [List.countP_append, List.countP_singleton, List.map_append, List.sum_append,
        List.map_singleton, List.sum_singleton]
      omega

end Lts

/-- A sum of which one term has changed. -/
theorem Finset.sum_change {ι : Type} [DecidableEq ι] {t : Finset ι} {f g : ι → Nat} {i : ι}
    (hi : i ∈ t) (hg : ∀ j, j ≠ i → g j = f j) :
    ∑ j ∈ t, g j + f i = ∑ j ∈ t, f j + g i := by
  have hrest : ∑ j ∈ t.erase i, g j = ∑ j ∈ t.erase i, f j :=
    Finset.sum_congr rfl fun j hj => hg j (Finset.ne_of_mem_erase hj)
  rw [← Finset.add_sum_erase t g hi, ← Finset.add_sum_erase t f hi, hrest]
  omega
