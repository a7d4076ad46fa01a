/-
Cutting a stream into frames as it arrives.

A decoder looks at the front of what it has and says how long the first frame is, once all of
it is there.  It may not change its mind when more arrives.  That is all it takes for the frames
of a stream not to depend on the pieces it came in: `frames_append` cuts a piece, keeps what is
left over, and goes on with the next piece in front of it.
-/
import Mathlib.Data.List.Basic

/-- Says how long the first frame is. -/
structure Decoder (α : Type) where
  frame : List α → Option Nat
  /-- A frame is not empty, and it is there. -/
  complete : ∀ xs n, frame xs = some n → 0 < n ∧ n ≤ xs.length
  /-- What comes after a frame is not looked at. -/
  stable : ∀ xs ys n, frame xs = some n → frame (xs ++ ys) = some n

namespace Decoder

variable {α : Type} {d : Decoder α} {xs ys : List α} {n k : Nat}

/-- The frames at the front of a list, `k` of them at most, and what is left over. -/
def framesUpTo (d : Decoder α) : Nat → List α → List (List α) × List α
  | 0, xs => ([], xs)
  | k + 1, xs =>
      match d.frame xs with
      | none => ([], xs)
      | some n =>
          let (frames, rest) := d.framesUpTo k (xs.drop n)
          (xs.take n :: frames, rest)

/-- All the frames of a list, and what is left over.  A frame has an element at least. -/
def frames (d : Decoder α) (xs : List α) : List (List α) × List α := d.framesUpTo xs.length xs

theorem frame_nil (d : Decoder α) : d.frame [] = none := by
  cases h : d.frame [] with
  | none => rfl
  | some n =>
      obtain ⟨hpos, hle⟩ := d.complete [] n h
      rw [List.length_nil] at hle
      omega

/-- As many frames as elements are enough. -/
theorem framesUpTo_enough {k j : Nat} {xs : List α} (hk : xs.length ≤ k) (hj : xs.length ≤ j) :
    d.framesUpTo k xs = d.framesUpTo j xs := by
  induction k generalizing j xs with
  | zero =>
      obtain rfl : xs = [] := List.length_eq_zero_iff.mp (Nat.le_zero.mp hk)
      cases j with
      | zero => rfl
      | succ j => simp [framesUpTo, frame_nil]
  | succ k ih =>
      cases j with
      | zero =>
          obtain rfl : xs = [] := List.length_eq_zero_iff.mp (Nat.le_zero.mp hj)
          simp [framesUpTo, frame_nil]
      | succ j =>
          simp only [framesUpTo]
          cases hframe : d.frame xs with
          | none => rfl
          | some n =>
              obtain ⟨hpos, -⟩ := d.complete xs n hframe
              have hdrop : (xs.drop n).length = xs.length - n := List.length_drop
              simp only [ih (by omega : (xs.drop n).length ≤ k) (by omega : _ ≤ j)]

theorem frames_of_none (h : d.frame xs = none) : d.frames xs = ([], xs) := by
  unfold frames
  cases xs.length with
  | zero => rfl
  | succ k => simp only [framesUpTo, h]

theorem frames_of_some (h : d.frame xs = some n) : d.frames xs =
    (xs.take n :: (d.frames (xs.drop n)).1, (d.frames (xs.drop n)).2) := by
  obtain ⟨hpos, hle⟩ := d.complete xs n h
  have hdrop : (xs.drop n).length = xs.length - n := List.length_drop
  have hup : d.frames xs = d.framesUpTo (xs.length - 1 + 1) xs :=
    framesUpTo_enough (Nat.le_refl _) (by omega)
  rw [hup]
  simp only [framesUpTo, h]
  have hrest : d.framesUpTo (xs.length - 1) (xs.drop n) = d.frames (xs.drop n) :=
    framesUpTo_enough (by omega) (Nat.le_refl _)
  rw [hrest]

/-- What holds of a list without a whole frame, and of one whose first frame is cut off when it
holds of the rest, holds of every list. -/
theorem frames_induct (d : Decoder α) {P : List α → Prop} (xs : List α)
    (hnone : ∀ xs, d.frame xs = none → P xs)
    (hsome : ∀ xs n, d.frame xs = some n → P (xs.drop n) → P xs) : P xs := by
  generalize hk : xs.length = k
  induction k using Nat.strongRecOn generalizing xs with
  | _ k ih =>
      cases hframe : d.frame xs with
      | none => exact hnone xs hframe
      | some n =>
          obtain ⟨hpos, hle⟩ := d.complete xs n hframe
          have hdrop : (xs.drop n).length = xs.length - n := List.length_drop
          exact hsome xs n hframe (ih (xs.drop n).length (by omega) (xs.drop n) rfl)

/-- The frames and what is left over are the list. -/
theorem frames_flatten (d : Decoder α) (xs : List α) :
    (d.frames xs).1.flatten ++ (d.frames xs).2 = xs := by
  induction xs using d.frames_induct with
  | hnone xs h =>
      rw [frames_of_none h]
      rfl
  | hsome xs n h ih =>
      rw [frames_of_some h, List.flatten_cons, List.append_assoc, ih, List.take_append_drop]

/-- No frame is left in what is left over. -/
theorem frame_rest (d : Decoder α) (xs : List α) : d.frame (d.frames xs).2 = none := by
  induction xs using d.frames_induct with
  | hnone xs h =>
      rw [frames_of_none h]
      exact h
  | hsome xs n h ih =>
      rw [frames_of_some h]
      exact ih

/-- A piece that comes later does not change the frames before it, and is cut together with what
those have left over. -/
theorem frames_append (d : Decoder α) (xs ys : List α) : d.frames (xs ++ ys) =
    ((d.frames xs).1 ++ (d.frames ((d.frames xs).2 ++ ys)).1,
      (d.frames ((d.frames xs).2 ++ ys)).2) := by
  induction xs using d.frames_induct with
  | hnone xs h =>
      rw [frames_of_none h]
      rfl
  | hsome xs n h ih =>
      obtain ⟨-, hle⟩ := d.complete xs n h
      rw [frames_of_some (d.stable xs ys n h), frames_of_some h, List.take_append_of_le_length hle,
        List.drop_append_of_le_length hle, ih]
      rfl

end Decoder
