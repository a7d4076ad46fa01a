/-
Transcripts: lists that grow at the end, each entry of which has to answer for itself.

An ordering property of a run, such as that this never comes after that, says of each
entry something about the entries before it.  `Justified` is that form.  It is kept by
appending an entry exactly when the new entry is justified, so that it can be carried as
an invariant along a run.
-/
import Mathlib.Data.List.Basic

namespace Transcript

variable {α : Type} {Q : List α → α → Prop} {l es : List α} {a : α}

/-- Each entry stands in the relation `Q` to the entries before it. -/
def Justified (Q : List α → α → Prop) (l : List α) : Prop :=
  ∀ before a after, l = before ++ a :: after → Q before a

theorem justified_nil : Justified Q [] := by
  intro before a after h
  simp at h

theorem Justified.append_singleton (h : Justified Q l) (ha : Q l a) :
    Justified Q (l ++ [a]) := by
  intro before b after heq
  rcases List.eq_nil_or_concat after with rfl | ⟨init, c, rfl⟩
  · obtain ⟨rfl, hb⟩ := List.append_inj' heq rfl
    rw [List.cons.injEq] at hb
    rw [← hb.1]
    exact ha
  · have heq' : l ++ [a] = (before ++ b :: init) ++ [c] := by
      rw [heq, List.concat_eq_append]
      simp
    obtain ⟨hl, -⟩ := List.append_inj' heq' rfl
    exact h before b init hl

/-- What is justified whatever came before it can be appended freely. -/
theorem Justified.append (h : Justified Q l) (hes : ∀ e ∈ es, ∀ before, Q before e) :
    Justified Q (l ++ es) := by
  induction es generalizing l with
  | nil => simpa using h
  | cons e es ih =>
      have hhead : Justified Q (l ++ [e]) :=
        h.append_singleton (hes e (by simp) l)
      have htail := ih hhead fun e' he' => hes e' (by simp [he'])
      simpa using htail

/-- A block can be appended when each of its entries is justified by what stands before it. -/
theorem Justified.append_while (h : Justified Q l)
    (hes : ∀ pre e post, es = pre ++ e :: post → Q (l ++ pre) e) : Justified Q (l ++ es) := by
  induction es generalizing l with
  | nil => simpa using h
  | cons e es ih =>
      have hhead : Justified Q (l ++ [e]) := by
        refine h.append_singleton ?_
        simpa using hes [] e es rfl
      have htail : Justified Q (l ++ [e] ++ es) := by
        refine ih hhead ?_
        intro pre a post heq
        have ha := hes (e :: pre) a post (by rw [heq, List.cons_append])
        simpa using ha
      simpa using htail

/-- A list is cut at its last occurrence of an element in one way only. -/
theorem cut_unique {b₁ b₂ s₁ s₂ : List α} (h₁ : a ∉ s₁) (h₂ : a ∉ s₂)
    (h : b₁ ++ a :: s₁ = b₂ ++ a :: s₂) : b₁ = b₂ ∧ s₁ = s₂ := by
  rcases List.append_eq_append_iff.mp h with ⟨c, hb, hs⟩ | ⟨c, hb, hs⟩
  · cases c with
    | nil =>
        rw [List.nil_append, List.cons.injEq] at hs
        rw [List.append_nil] at hb
        exact ⟨hb.symm, hs.2⟩
    | cons x c =>
        rw [List.cons_append, List.cons.injEq] at hs
        exact absurd (hs.2 ▸ by simp) h₁
  · cases c with
    | nil =>
        rw [List.nil_append, List.cons.injEq] at hs
        rw [List.append_nil] at hb
        exact ⟨hb, hs.2.symm⟩
    | cons x c =>
        rw [List.cons_append, List.cons.injEq] at hs
        exact absurd (hs.2 ▸ by simp) h₂

end Transcript
