/-
`start` does not wait for ever.

It waits for the promise of one thread at a time.  That thread is in `threadFunc` before the
store of its promise, and nothing there waits for anyone: with the calls its callback is in
finished, it stores `loop_` and sets the promise.  So from wherever `start` is, the steps of
the main thread and of the thread it waits for lead to its return.
-/
import Mathlib.Data.Fintype.EquivFin
import Muduo.Proofs.OwnSteps
import Muduo.Proofs.PoolSystem

namespace Muduo

namespace EventLoopThread

variable {F : Type} {s s' : EventLoopThread F} {a : Action F}

/-! ### The thread that is waited for -/

/-- A step of the thread's own on its way to the promise. -/
def OnWay (s : EventLoopThread F) : Action F → Prop
  | .construct => True
  | .storeLoop => True
  | .setPromise => True
  | .use (.test t) => t = s.loop.threadId
  | .use (.write t) => t = s.loop.threadId
  | _ => False

/-- The owner waits meanwhile. -/
theorem OnWay.owner (h : OnWay s a) (hstep : lts.step s a s') (hs : s.ownerPc = .starting) :
    s'.ownerPc = .starting ∧ s'.loop.threadId = s.loop.threadId ∧
      a ≠ .startLoopReturn ∧ a ≠ .leave := by
  have hcases := step_cases hstep
  refine ⟨?_, hcases.threadId, ?_, ?_⟩
  · rcases hcases.owner with rfl | ⟨rfl, -⟩ | ⟨rfl, -⟩ | ⟨-, hsame | ⟨-, ⟨rfl, -⟩ | hfrom⟩⟩
    · exact h.elim
    · exact h.elim
    · exact h.elim
    · rw [hsame, hs]
    · exact h.elim
    · simp [hs, OwnerPc.destructing] at hfrom
  · rintro rfl
    exact h
  · rintro rfl
    exact h

end EventLoopThread

/-- `start` has been called, and the pool is not being destroyed. -/
def PoolPc.begun : PoolPc → Bool
  | .creating _ => true
  | .waiting _ => true
  | .started => true
  | _ => false

namespace PoolSystem

variable {F : Type} {s s' : PoolSystem F} {a : Action F}

theorem Step.numThreads (h : Step s a s') : s'.pool.numThreads = s.pool.numThreads := by
  cases h with
  | getNextLoop pc call =>
      obtain ⟨next, rfl⟩ := EventLoopThreadPool.getNextLoop_next call
      rfl
  | _ => rfl

/-- A step of the main thread inside `start`, or of a thread on its way to its promise; no thread is
created with the id `u`. -/
def OnStart (u : Tid) (s : PoolSystem F) : Action F → Prop
  | .create t => t ≠ u
  | .member i b => b = .startLoopReturn ∨ ∃ th, s.threads[i]? = some th ∧ th.OnWay b
  | .startReturn => True
  | _ => False

theorem OnStart.quiet {u : Tid} (h : OnStart u s a) : Quiet s a := by
  cases a with
  | member i b =>
      rcases h with rfl | ⟨th, -, hway⟩
      · rfl
      · cases b with
        | use b =>
            cases b with
            | quit t => exact hway.elim
            | _ => rfl
        | _ => rfl
  | _ => rfl

end PoolSystem

end Muduo
