/-
Windows of a list, and what overwriting or resizing the list does to them.

A contiguous store is a list; the part of it between two indices is a `window`.
The three ways an implementation changes a store in place are writing a block at
an index (`overwrite`), growing or cutting its end (`resize`), and moving a block
to another index, which is an overwrite by a window of the same list.  Each has one
lemma saying which window it leaves and which it changes, so that a client never
computes with `take` and `drop`.
-/
import Mathlib.Data.List.Basic
import Mathlib.Data.List.TakeDrop

namespace Segment

variable {α : Type}

/-- The elements at the indices `i ≤ k < j`. -/
def window (xs : List α) (i j : Nat) : List α :=
  (xs.take j).drop i

/-- `xs` with the block `ys` written at index `i`. -/
def overwrite (xs : List α) (i : Nat) (ys : List α) : List α :=
  xs.take i ++ ys ++ xs.drop (i + ys.length)

/-- `xs` cut or padded with `fill` to `n` elements. -/
def resize (xs : List α) (n : Nat) (fill : α) : List α :=
  xs.take n ++ List.replicate (n - xs.length) fill

/-! ### Lengths -/

theorem length_window {xs : List α} {i j : Nat} (hj : j ≤ xs.length) :
    (window xs i j).length = j - i := by
  simp [window, Nat.min_eq_left hj]

theorem length_overwrite {xs ys : List α} {i : Nat} (h : i + ys.length ≤ xs.length) :
    (overwrite xs i ys).length = xs.length := by
  simp only [overwrite, List.length_append, List.length_take, List.length_drop]
  omega

@[simp] theorem length_resize (xs : List α) (n : Nat) (fill : α) :
    (resize xs n fill).length = n := by
  simp only [resize, List.length_append, List.length_take, List.length_replicate]
  omega

/-! ### Cutting a window -/

@[simp] theorem window_self (xs : List α) (i : Nat) : window xs i i = [] := by
  simp [window]

theorem window_drop (xs : List α) (i j n : Nat) :
    (window xs i j).drop n = window xs (i + n) j := by
  simp [window, List.drop_drop]

theorem window_take {xs : List α} {i j n : Nat} (h : i + n ≤ j) :
    (window xs i j).take n = window xs i (i + n) := by
  simp only [window, List.take_drop, List.take_take, Nat.min_eq_left h]

/-- A window is the window up to an index in it, then the rest. -/
theorem window_append {xs : List α} {i k j : Nat} (hik : i ≤ k) (hkj : k ≤ j) :
    window xs i k ++ window xs k j = window xs i j := by
  have htake : (window xs i j).take (k - i) = window xs i k := by
    rw [window_take (by omega), Nat.add_sub_cancel' hik]
  have hdrop : (window xs i j).drop (k - i) = window xs k j := by
    rw [window_drop, Nat.add_sub_cancel' hik]
  rw [← htake, ← hdrop, List.take_append_drop]

/-! ### Windows of a changed store -/

/-- A window that ends where the block begins is not changed. -/
theorem window_overwrite_below {xs ys : List α} {i j : Nat} (hj : j ≤ xs.length) :
    window (overwrite xs j ys) i j = window xs i j := by
  simp [window, overwrite, Nat.min_eq_left hj]

/-- The window the block was written to is the block. -/
theorem window_overwrite_self {xs ys : List α} {i : Nat} (hi : i ≤ xs.length) :
    window (overwrite xs i ys) i (i + ys.length) = ys := by
  simp [window, overwrite, List.take_append, Nat.min_eq_left hi]

/-- Writing a block where a window ends appends the block to the window. -/
theorem window_overwrite_append {xs ys : List α} {i j : Nat} (hij : i ≤ j)
    (hj : j ≤ xs.length) :
    window (overwrite xs j ys) i (j + ys.length) = window xs i j ++ ys := by
  rw [← window_append hij (Nat.le_add_right j ys.length), window_overwrite_below hj,
    window_overwrite_self hj]

/-- Resizing keeps every window that lies in both lists. -/
theorem window_resize {xs : List α} {i j n : Nat} {fill : α} (hn : j ≤ n)
    (hj : j ≤ xs.length) : window (resize xs n fill) i j = window xs i j := by
  have hpre : (resize xs n fill).take j = xs.take j := by
    rw [resize, List.take_append_of_le_length (by simp; omega), List.take_take,
      Nat.min_eq_left hn]
  rw [window, hpre, window]

end Segment
