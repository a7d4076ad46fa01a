/-
Labelled transition systems, their runs, and how an invariant is proved of them.

A system is an initial condition and a step relation labelled by actions.  A
`Path` records the actions it took, oldest first, so that a statement about a run
can speak of what the run did as well as of where it ended.

Two tools carry everything built on top.  `Reachable.induct` is the only induction
over runs: an invariant is proved of the initial states and of one step.
`restrict` adds a condition to the steps; its runs are exactly the runs all of
whose steps meet the condition, which is how an assumption about the environment
is made of a whole run.
-/
import Mathlib.Logic.Basic
import Mathlib.Data.List.Basic

/-- A labelled transition system over states `σ` and actions `α`. -/
structure Lts (σ α : Type) where
  init : σ → Prop
  step : σ → α → σ → Prop

namespace Lts

variable {σ α : Type} {T : Lts σ α}

/-- `Path T s as s'`: the actions `as`, oldest first, lead from `s` to `s'`. -/
inductive Path (T : Lts σ α) (s : σ) : List α → σ → Prop
  | nil : Path T s [] s
  | snoc {m s' : σ} {as : List α} {a : α}
      (h : Path T s as m) (hstep : T.step m a s') : Path T s (as ++ [a]) s'

/-- A run: a path from an initial state. -/
def Run (T : Lts σ α) (as : List α) (s : σ) : Prop :=
  ∃ s₀, T.init s₀ ∧ Path T s₀ as s

/-- Some run ends in `s`. -/
def Reachable (T : Lts σ α) (s : σ) : Prop :=
  ∃ as, Run T as s

theorem Path.append {s m s' : σ} {as bs : List α} (h₁ : Path T s as m)
    (h₂ : Path T m bs s') : Path T s (as ++ bs) s' := by
  induction h₂ with
  | nil => simpa using h₁
  | snoc _ hstep ih => simpa using Path.snoc ih hstep

theorem Path.single {s s' : σ} {a : α} (h : T.step s a s') : Path T s [a] s' :=
  Path.snoc Path.nil h

theorem Run.snoc {as : List α} {a : α} {s s' : σ} (h : Run T as s)
    (hstep : T.step s a s') : Run T (as ++ [a]) s' := by
  obtain ⟨s₀, h0, hpath⟩ := h
  exact ⟨s₀, h0, hpath.snoc hstep⟩

theorem Reachable.of_init {s : σ} (h : T.init s) : T.Reachable s :=
  ⟨[], s, h, Path.nil⟩

theorem Reachable.step {s s' : σ} {a : α} (h : T.Reachable s)
    (hstep : T.step s a s') : T.Reachable s' := by
  obtain ⟨as, hrun⟩ := h
  exact ⟨as ++ [a], hrun.snoc hstep⟩

theorem Reachable.path {s s' : σ} {as : List α} (h : T.Reachable s)
    (hp : Path T s as s') : T.Reachable s' := by
  induction hp with
  | nil => exact h
  | snoc _ hstep ih => exact ih.step hstep

/-- What a path preserves step by step holds at its end. -/
theorem Path.induct {P : σ → Prop} {s s' : σ} {as : List α} (hp : Path T s as s')
    (h0 : P s) (hstep : ∀ m a m', P m → T.step m a m' → P m') : P s' := by
  induction hp with
  | nil => exact h0
  | snoc _ h ih => exact hstep _ _ _ ih h

/-- A property of the actions taken and the state reached, proved along a run. -/
theorem Run.induct {P : List α → σ → Prop} {as : List α} {s : σ} (h : Run T as s)
    (h0 : ∀ s₀, T.init s₀ → P [] s₀)
    (hstep : ∀ as m a m', Run T as m → P as m → T.step m a m' → P (as ++ [a]) m') :
    P as s := by
  obtain ⟨s₀, hinit, hp⟩ := h
  induction hp with
  | nil => exact h0 _ hinit
  | snoc hp h ih => exact hstep _ _ _ _ ⟨s₀, hinit, hp⟩ ih h

/-- The invariant rule.  The step may use that the state it leaves is reachable. -/
theorem Reachable.induct {P : σ → Prop} {s : σ} (h : T.Reachable s)
    (h0 : ∀ s₀, T.init s₀ → P s₀)
    (hstep : ∀ m a m', T.Reachable m → P m → T.step m a m' → P m') : P s := by
  obtain ⟨as, hrun⟩ := h
  exact hrun.induct (P := fun _ s => P s) h0
    fun as m a m' hm hP hs => hstep m a m' ⟨as, hm⟩ hP hs

/-! ### Conditions on the steps of a run -/

/-- The same system with a condition on the steps it may take. -/
def restrict (T : Lts σ α) (C : σ → α → Prop) : Lts σ α where
  init := T.init
  step s a s' := C s a ∧ T.step s a s'

variable {C : σ → α → Prop}

theorem Path.of_restrict {s s' : σ} {as : List α} (h : Path (T.restrict C) s as s') :
    Path T s as s' := by
  induction h with
  | nil => exact Path.nil
  | snoc _ hstep ih => exact ih.snoc hstep.2

theorem Path.restrict_mono {D : σ → α → Prop} (hCD : ∀ s a, C s a → D s a) {s s' : σ}
    {as : List α} (h : Path (T.restrict C) s as s') : Path (T.restrict D) s as s' := by
  induction h with
  | nil => exact Path.nil
  | snoc _ hstep ih => exact ih.snoc ⟨hCD _ _ hstep.1, hstep.2⟩

theorem Run.of_restrict {s : σ} {as : List α} (h : Run (T.restrict C) as s) : Run T as s := by
  obtain ⟨s₀, h0, hp⟩ := h
  exact ⟨s₀, h0, hp.of_restrict⟩

theorem Reachable.of_restrict {s : σ} (h : (T.restrict C).Reachable s) : T.Reachable s := by
  obtain ⟨as, hrun⟩ := h
  exact ⟨as, hrun.of_restrict⟩

theorem Reachable.restrict_mono {D : σ → α → Prop} (hCD : ∀ s a, C s a → D s a) {s : σ}
    (h : (T.restrict C).Reachable s) : (T.restrict D).Reachable s := by
  obtain ⟨as, s₀, h0, hp⟩ := h
  exact ⟨as, s₀, h0, hp.restrict_mono hCD⟩

/-- A condition that asks for nothing. -/
theorem Reachable.restrict_true {s : σ} (h : T.Reachable s) :
    (T.restrict fun _ _ => True).Reachable s := by
  refine h.induct (fun s₀ h0 => Reachable.of_init h0) ?_
  intro m a m' _ hm hstep
  exact hm.step ⟨trivial, hstep⟩

/-! ### The largest value so far -/

/-- The system together with the largest value that a measure of its state has had. -/
def peak (T : Lts σ α) (f : σ → Nat) : Lts (σ × Nat) α where
  init p := T.init p.1 ∧ p.2 = f p.1
  step p a p' := T.step p.1 a p'.1 ∧ p'.2 = max p.2 (f p'.1)

variable {f : σ → Nat}

theorem Reachable.of_peak {p : σ × Nat} (h : (T.peak f).Reachable p) : T.Reachable p.1 := by
  refine h.induct (P := fun p => T.Reachable p.1) ?_ ?_
  · intro p₀ h0
    exact Reachable.of_init h0.1
  · intro p a p' _ hp hstep
    exact hp.step hstep.1

theorem Reachable.peak_step {p : σ × Nat} (h : (T.peak f).Reachable p) {a : α} {s' : σ}
    (hstep : T.step p.1 a s') : (T.peak f).Reachable (s', max p.2 (f s')) :=
  h.step (a := a) ⟨hstep, rfl⟩

/-- A bound that does not fall as the measure grows holds in every state of a run, if it holds
in the initial ones and each step keeps it, its measure being the largest so far or less. -/
theorem Reachable.bound_of_peak {g : σ → Nat} {B : Nat → Nat}
    (hmono : ∀ m n, m ≤ n → B m ≤ B n) {p : σ × Nat} (h : (T.peak f).Reachable p)
    (h0 : ∀ s₀, T.init s₀ → g s₀ ≤ B (f s₀))
    (hstep : ∀ s a s', T.Reachable s → T.step s a s' → g s' ≤ g s ∨ g s' ≤ B (f s')) :
    g p.1 ≤ B p.2 := by
  refine h.induct (P := fun p => g p.1 ≤ B p.2) ?_ ?_
  · intro p₀ hp₀
    rw [hp₀.2]
    exact h0 p₀.1 hp₀.1
  · intro p a p' hp hbound ⟨hs, hmax⟩
    rw [hmax]
    rcases hstep p.1 a p'.1 hp.of_peak hs with hle | hle
    · exact Nat.le_trans hle (Nat.le_trans hbound (hmono _ _ (Nat.le_max_left _ _)))
    · exact Nat.le_trans hle (hmono _ _ (Nat.le_max_right _ _))

/-! ### Running a list of actions

A step function that is sound for the system turns a list of actions into a run by
computation.  The invariant `I` is what the step function relies on and cannot look at.
-/

/-- The state after a list of actions, if each of them can be taken. -/
def run (next : σ → α → Option σ) : σ → List α → Option σ
  | s, [] => some s
  | s, a :: as => (next s a).bind fun s' => run next s' as

/-- The step function that refuses what does not meet the condition. -/
def guarded (c : σ → α → Bool) (next : σ → α → Option σ) (s : σ) (a : α) : Option σ :=
  if c s a then next s a else none

theorem Path.of_run {I : σ → Prop} {next : σ → α → Option σ}
    (sound : ∀ s a s', I s → next s a = some s' → T.step s a s' ∧ I s') {as : List α} :
    ∀ {s s' : σ}, I s → run next s as = some s' → Path T s as s' := by
  induction as with
  | nil =>
      intro s s' _ h
      simp only [run, Option.some.injEq] at h
      rw [h]
      exact Path.nil
  | cons a as ih =>
      intro s s' hI h
      simp only [run, Option.bind_eq_some_iff] at h
      obtain ⟨m, hm, h⟩ := h
      obtain ⟨hstep, hI'⟩ := sound s a m hI hm
      exact (Path.single hstep).append (ih hI' h)

/-- A run, found by computing it, to a state with a property that can be computed. -/
theorem Run.of_run {I : σ → Prop} {next : σ → α → Option σ} {c : σ → α → Bool}
    (sound : ∀ s a s', I s → next s a = some s' → T.step s a s' ∧ I s')
    (hc : ∀ s a, I s → c s a = true → C s a) {s₀ : σ} (hinit : T.init s₀) (hI : I s₀)
    {as : List α} {p : σ → Bool} (h : (run (guarded c next) s₀ as).any p = true) :
    ∃ s, Run (T.restrict C) as s ∧ p s = true := by
  obtain ⟨s, hs, hp⟩ := (Option.any_eq_true p _).mp h
  refine ⟨s, ⟨s₀, hinit, Path.of_run (I := I) ?_ hI hs⟩, hp⟩
  intro m a m' hm hnext
  unfold guarded at hnext
  by_cases hca : c m a = true
  · rw [if_pos hca] at hnext
    obtain ⟨hstep, hI'⟩ := sound m a m' hm hnext
    exact ⟨⟨hc m a hm hca, hstep⟩, hI'⟩
  · rw [if_neg hca] at hnext
    simp at hnext

end Lts
