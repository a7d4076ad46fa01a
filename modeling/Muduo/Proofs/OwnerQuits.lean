/-
A loop's thread that only its destructor tells to quit.

That is how the library uses the threads of a pool.  `loop()` then does not return before the
destructor's `quit` has stored, so until then `loop_` holds the loop's address: `startLoop`
returns it, the destructor finds it both times and calls `quit` on a loop that exists.  From
there only `join` leads on, so a destructor that returns has waited for the end of the thread.
What may still go wrong is `quit` itself, when the thread has come to its end before `quit` has.
-/
import Muduo.Proofs.EventLoopThread

namespace Muduo

namespace EventLoop

variable {F : Type} {s s' : EventLoop F} {a : Action F}

/-- A step that is no call of `quit` does not set `m_quit`. -/
theorem Step.quit_unset (h : Step s a s') (ha : ∀ t, a ≠ .quit t) (hq : s.quit = false) :
    s'.quit = false := by
  cases h with
  | quit may => exact absurd rfl (ha _)
  | loop free pc => rfl
  | _ => exact hq

/-- A loop that has not been told to quit stays in `loop()`. -/
theorem Step.stays (h : Step s a s') (hpc : s.pc ≠ .outside) (hq : s.quit = false) :
    s'.pc ≠ .outside := by
  cases h with
  | leave free pc hquit =>
      rw [hq] at hquit
      simp at hquit
  | loop free pc | enterPoll free pc | poll free pc | callback free pc | callbackEnd free pc
  | setCalling free pc | swap free pc | runFunctor free pc | functorEnd free pc
  | clearCalling free pc | release free pc => simp [record]
  | _ => exact hpc

end EventLoop

namespace OwnerPc

/-- The destructor has not called `quit`. -/
def beforeQuit : OwnerPc → Bool
  | .idle => true
  | .starting => true
  | .started => true
  | .testing => true
  | .reading => true
  | .calling => true
  | _ => false

/-- The destructor has come past `join`. -/
def afterJoin : OwnerPc → Bool
  | .leaving => true
  | .destroyed => true
  | _ => false

/-- What such a destructor has done so far. -/
def done : OwnerPc → List DestructorEvent
  | .quitting => [.quitCalled true]
  | .joining => [.quitCalled true]
  | .leaving => [.quitCalled true]
  | .destroyed => [.quitCalled true, .returned .ended]
  | .undefined => [.quitCalled true, .loopGone]
  | _ => []

end OwnerPc

namespace EventLoopThread

variable {F : Type} {s s' : EventLoopThread F} {a : Action F}

/-- Nobody calls `quit` on the loop, the destructor apart. -/
def OwnerQuits (_ : EventLoopThread F) : Action F → Prop
  | .use (.quit _) => False
  | _ => True

/-- Where such a thread and its owner are. -/
structure Owned (s : EventLoopThread F) : Prop where
  unquit : s.ownerPc.beforeQuit = true → s.loop.quit = false ∧ s.thread.beforeReturn = true
  ended : s.ownerPc.afterJoin = true → s.thread = .ended
  log : s.log = s.ownerPc.done

namespace Owned

/-- Until the destructor's `quit`, `loop_` is set once the promise is, and the loop exists. -/
theorem there (h : Owned s) (hshape : Shape s) (hbefore : s.ownerPc.beforeQuit = true)
    (hset : s.promiseSet = true) : s.loopSet = true ∧ s.thread.hasLoop = true := by
  rw [hshape.promiseSet] at hset
  rw [hshape.loopSet]
  exact ThreadPc.of_promise hset (h.unquit hbefore).2

/-- A step of the thread up to `loop()`. -/
theorem early (h : Owned s) (hquit : s'.loop.quit = false)
    (hthread : s'.thread.beforeReturn = true) (hne : s.thread ≠ .ended)
    (howner : s'.ownerPc = s.ownerPc) (hlog : s'.log = s.log) : Owned s' := by
  refine ⟨fun _ => ⟨hquit, hthread⟩, ?_, ?_⟩
  · intro hafter
    rw [howner] at hafter
    exact absurd (h.ended hafter) hne
  · rw [hlog, howner]
    exact h.log

/-- A step of the thread that does not come before the destructor's `quit`. -/
theorem late (h : Owned s) (hreturn : s.thread.beforeReturn = false) (hne : s.thread ≠ .ended)
    (howner : s'.ownerPc = s.ownerPc) (hlog : s'.log = s.log) : Owned s' := by
  refine ⟨?_, ?_, ?_⟩
  · intro hbefore
    rw [howner] at hbefore
    rw [(h.unquit hbefore).2] at hreturn
    simp at hreturn
  · intro hafter
    rw [howner] at hafter
    exact absurd (h.ended hafter) hne
  · rw [hlog, howner]
    exact h.log

/-- A step of the owner that leaves the thread alone. -/
theorem owner (h : Owned s) (hloop : s'.loop = s.loop) (hthread : s'.thread = s.thread)
    (hbefore : s'.ownerPc.beforeQuit = true → s.ownerPc.beforeQuit = true)
    (hafter : s'.ownerPc.afterJoin = true → s.thread = .ended)
    (hlog : s'.log = s'.ownerPc.done) : Owned s' := by
  refine ⟨?_, ?_, hlog⟩
  · intro hb
    rw [hloop, hthread]
    exact h.unquit (hbefore hb)
  · intro ha
    rw [hthread]
    exact hafter ha

/-- A step of the loop, or of a call of one of its member functions. -/
theorem use (h : Owned s) (hlooping : Looping s) {b : EventLoop.Action F} {l : EventLoop F}
    (hb : ∀ t, b ≠ .quit t) (step : EventLoop.Step s.loop b l) : Owned (s.withLoop l) := by
  have hended : (s.withLoop l).thread = .ended ↔ s.thread = .ended := by
    rcases withLoop_thread (s := s) l with ⟨hthread, -, hret⟩ | ⟨-, hsame⟩
    · rw [hthread, hret]
      simp
    · rw [hsame]
  refine ⟨?_, fun hafter => hended.mpr (h.ended hafter), h.log⟩
  intro hbefore
  obtain ⟨hquit, hreturn⟩ := h.unquit hbefore
  refine ⟨step.quit_unset hb hquit, ?_⟩
  rcases withLoop_thread (s := s) l with ⟨hthread, hout, -⟩ | ⟨-, hsame⟩
  · exact absurd hout (step.stays (hlooping.within hthread).1 hquit)
  · rw [hsame]
    exact hreturn

theorem step (h : Owned s) (hshape : Shape s) (hlooping : Looping s) (hcond : OwnerQuits s a)
    (hstep : Step s a s') : Owned s' := by
  have hstarted : s.ownerPc.afterStart = true → s.ownerPc.beforeQuit = true →
      s.loopSet = true ∧ s.thread.hasLoop = true :=
    fun hafter hbefore => h.there hshape hbefore (hshape.started hafter)
  cases hstep with
  | startLoop pc =>
      have hlog := h.log
      rw [pc] at hlog
      exact ⟨fun _ => ⟨(h.unquit (by rw [pc]; rfl)).1, rfl⟩, by simp [OwnerPc.afterJoin], hlog⟩
  | construct thread | storeLoop thread | setPromise thread =>
      refine ⟨fun hb => ⟨(h.unquit hb).1, rfl⟩, fun ha => ?_, h.log⟩
      rw [h.ended ha] at thread
      simp at thread
  | callLoop thread step =>
      cases step with
      | loop free pc => exact h.early rfl rfl (by simp [thread]) rfl rfl
  | lock thread | clearLoop thread | unlock thread =>
      exact h.late (by rw [thread]; rfl) (by simp [thread]) rfl rfl
  | finish thread =>
      refine ⟨?_, fun _ => rfl, h.log⟩
      intro hb
      have hreturn := (h.unquit hb).2
      rw [thread] at hreturn
      simp [ThreadPc.beforeReturn, ThreadPc.beforeLoop] at hreturn
  | @use b l may alive step =>
      refine h.use hlooping ?_ step
      rintro t rfl
      exact hcond
  | useDead pc inside dead =>
      have hlog := h.log
      rw [pc] at hlog
      refine h.owner rfl rfl (by simp [OwnerPc.beforeQuit]) (by simp [OwnerPc.afterJoin]) ?_
      show s.log ++ [_] = _
      rw [hlog]
      rfl
  | startLoopReturn pc set | destroy pc | testSet pc set | readSet pc set =>
      have hlog := h.log
      rw [pc] at hlog
      exact h.owner rfl rfl (fun _ => by rw [pc]; rfl) (by simp [OwnerPc.afterJoin]) hlog
  | testNull pc null | readNull pc null =>
      have hset := (hstarted (by rw [pc]; rfl) (by rw [pc]; rfl)).1
      rw [null] at hset
      simp at hset
  | quitDead pc dead =>
      have halive := (hstarted (by rw [pc]; rfl) (by rw [pc]; rfl)).2
      rw [dead] at halive
      simp at halive
  | quit pc alive step =>
      have hlog := h.log
      rw [pc] at hlog
      refine ⟨by simp [OwnerPc.beforeQuit], by simp [OwnerPc.afterJoin], ?_⟩
      show s.log ++ [_] = _
      rw [hlog]
      rfl
  | quitReturn pc =>
      have hlog := h.log
      rw [pc] at hlog
      exact h.owner rfl rfl (by simp [OwnerPc.beforeQuit]) (by simp [OwnerPc.afterJoin]) hlog
  | join pc ended =>
      have hlog := h.log
      rw [pc] at hlog
      exact h.owner rfl rfl (by simp [OwnerPc.beforeQuit]) (fun _ => ended) hlog
  | leave pc =>
      have hended := h.ended (by rw [pc]; rfl)
      have hlog := h.log
      rw [pc] at hlog
      refine h.owner rfl rfl (by simp [OwnerPc.beforeQuit]) (fun _ => hended) ?_
      show s.log ++ [_] = _
      rw [hlog, hended]
      rfl

end Owned

theorem owned_of_reachable (h : (lts.restrict OwnerQuits).Reachable s) : Owned s := by
  refine h.induct ?_ ?_
  · rintro s₀ ⟨owner, t, -, rfl⟩
    exact ⟨fun _ => ⟨rfl, rfl⟩, by simp [new, OwnerPc.afterJoin], rfl⟩
  · rintro m b m' hr hm ⟨hcond, hstep⟩
    exact hm.step (shape_of_reachable hr.of_restrict) (looping_of_reachable hr.of_restrict) hcond
      (step_cases hstep)

/-- What a step may leave undefined. -/
theorem Step.undefined (h : Step s a s') (hpc : s'.ownerPc = .undefined) :
    s.ownerPc = .undefined ∨ s.ownerPc = .reading ∧ s.loopSet = false ∨
      s.ownerPc = .calling ∧ s.thread.hasLoop = false ∨ s.InQuit ∧ s.thread.hasLoop = false := by
  cases h with
  | readNull pc null => exact Or.inr (Or.inl ⟨pc, null⟩)
  | quitDead pc dead => exact Or.inr (Or.inr (Or.inl ⟨pc, dead⟩))
  | useDead pc inside dead => exact Or.inr (Or.inr (Or.inr ⟨⟨pc, inside⟩, dead⟩))
  | construct thread | storeLoop thread | setPromise thread | callLoop thread step | lock thread
  | clearLoop thread | unlock thread | finish thread | use may alive step => exact Or.inl hpc
  | startLoop pc | startLoopReturn pc set | destroy pc | testSet pc set | testNull pc null
  | readSet pc set | quit pc alive step | quitReturn pc | join pc ended | leave pc =>
      simp at hpc

/-- If the thread does not come to its end while the destructor is inside `quit`, nothing goes
wrong. -/
theorem defined_of_reachable
    (h : (lts.restrict fun s a => OwnerQuits s a ∧ EndsAfterQuit s a).Reachable s) :
    s.ownerPc ≠ .undefined := by
  refine h.induct (P := fun s => s.ownerPc ≠ .undefined) ?_ ?_
  · rintro s₀ ⟨owner, t, -, rfl⟩
    simp [new]
  · rintro m b m' hr hm ⟨-, hstep⟩ hpc
    have hshape := shape_of_reachable hr.of_restrict
    have howned := owned_of_reachable (hr.restrict_mono fun _ _ hc => hc.1)
    have hout := outlasted_of_reachable (hr.restrict_mono fun _ _ hc => hc.2)
    have hthere : m.ownerPc.afterStart = true → m.ownerPc.beforeQuit = true →
        m.loopSet = true ∧ m.thread.hasLoop = true :=
      fun hafter hbefore => howned.there hshape hbefore (hshape.started hafter)
    rcases (step_cases hstep).undefined hpc with hwas | ⟨hwas, hnull⟩ | ⟨hwas, hdead⟩ |
      ⟨hin, hdead⟩
    · exact hm hwas
    · have hset := (hthere (by rw [hwas]; rfl) (by rw [hwas]; rfl)).1
      rw [hnull] at hset
      simp at hset
    · have halive := (hthere (by rw [hwas]; rfl) (by rw [hwas]; rfl)).2
      rw [hdead] at halive
      simp at halive
    · have halive := hout hin
      rw [hdead] at halive
      simp at halive

end EventLoopThread

end Muduo
