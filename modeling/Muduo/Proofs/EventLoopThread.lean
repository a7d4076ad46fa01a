/-
Ending a loop's thread.

`startLoop` lets the owner go once `loop_` is stored, which is before `loop()` has stored
`m_quit = false`, so the destructor's `quit` may come first and be undone.  And the
destructor looks at `loop_` without a lock, so it may find it null while `threadFunc` still
holds `m_mutex`, or find it set and use it when the loop is gone.

Neither happens when the destructor's steps fall inside `loop()`.  Its `quit` however ends
`loop()` with the store, and reads the loop again after that; the thread must not come to its end
in between.  `Shape` says how the object's fields go with the place of the thread; the two results
add what the owner has done.
-/
import Muduo.EventLoopThread
import Muduo.Proofs.EventLoop

namespace Muduo

namespace EventLoop

variable {F : Type} {s s' : EventLoop F} {a : Action F}

/-! ### What a step of a loop does to `m_quit` -/

theorem Step.log_grows (h : Step s a s') : ∃ es, s'.log = s.log ++ es := by
  cases h with
  | queueInLoop may | runQueued may other | runAtOnce may | quit may | noWake call calling
  | writeFor call | leave free pc hquit | swap free pc | functorEnd free pc => exact ⟨_, rfl⟩
  | _ => exact ⟨[], (List.append_nil _).symm⟩

/-- Only the entry of `loop()` clears `m_quit`. -/
theorem Step.quit_kept (h : Step s a s') (ha : a ≠ .loop) (hq : s.quit = true) :
    s'.quit = true := by
  cases h with
  | loop free pc => exact absurd rfl ha
  | quit may => rfl
  | _ => exact hq

theorem Step.quit_logged (h : Step s a s') {t : Tid} (ht : .quit t ∈ s'.log) :
    .quit t ∈ s.log ∨ a = .quit t := by
  cases h with
  | @quit u may =>
      rcases List.mem_append.mp ht with ht | ht
      · exact Or.inl ht
      · rw [List.mem_singleton, LoopEvent.quit.injEq] at ht
        rw [ht]
        exact Or.inr rfl
  | queueInLoop may | runQueued may other | runAtOnce may | noWake call calling | writeFor call
  | leave free pc hquit | swap free pc | functorEnd free pc =>
      rcases List.mem_append.mp ht with ht | ht
      · exact Or.inl ht
      · simp at ht
  | _ => exact Or.inl ht

/-- Outside `loop()` nothing but its entry leads into it. -/
theorem Step.outside (h : Step s a s') (ha : a ≠ .loop) (hpc : s.pc = .outside) :
    s'.pc = .outside := by
  cases h with
  | loop free pc => exact absurd rfl ha
  | enterPoll free pc | poll free pc | callback free pc | callbackEnd free pc
  | setCalling free pc | swap free pc | runFunctor free pc | functorEnd free pc
  | clearCalling free pc | release free pc =>
      rw [hpc] at pc
      simp at pc
  | leave free pc hquit => rfl
  | _ => exact hpc

theorem Step.returned_logged (h : Step s a s') (hr : .loopReturned ∈ s'.log) :
    .loopReturned ∈ s.log ∨ (s.pc = .testing ∧ s'.pc = .outside) := by
  cases h with
  | leave free pc hquit => exact Or.inr ⟨pc, rfl⟩
  | queueInLoop may | runQueued may other | runAtOnce may | quit may | noWake call calling
  | writeFor call | swap free pc | functorEnd free pc =>
      rcases List.mem_append.mp hr with hr | hr
      · exact Or.inl hr
      · simp at hr
  | _ => exact Or.inl hr

end EventLoop

namespace ThreadPc

/-- `loop_` holds the loop's address. -/
def hasAddress : ThreadPc → Bool
  | .stored => true
  | .promised => true
  | .looping => true
  | .returned => true
  | .locked => true
  | _ => false

/-- The promise has been set. -/
def afterPromise : ThreadPc → Bool
  | .unstarted => false
  | .created => false
  | .constructed => false
  | .stored => false
  | _ => true

/-- With the promise set and `loop()` not left, `loop_` is set and the loop exists. -/
theorem of_promise {pc : ThreadPc} (hp : pc.afterPromise = true) (hr : pc.beforeReturn = true) :
    pc.hasAddress = true ∧ pc.hasLoop = true := by
  cases pc with
  | promised | looping | returned | locked => exact ⟨rfl, rfl⟩
  | unstarted | created | constructed | stored => simp [afterPromise] at hp
  | cleared | unlocked | ended => simp [beforeReturn, beforeLoop] at hr

end ThreadPc

/-- `startLoop` has returned to the owner. -/
def OwnerPc.afterStart : OwnerPc → Bool
  | .idle => false
  | .starting => false
  | _ => true

namespace EventLoopThread

variable {F : Type} {s s' : EventLoopThread F} {a : Action F}

/-! ### The steps -/

inductive Step (s : EventLoopThread F) : Action F → EventLoopThread F → Prop
  | startLoop (pc : s.ownerPc = .idle) :
      Step s .startLoop { s with ownerPc := .starting, thread := .created }
  | startLoopReturn (pc : s.ownerPc = .starting) (set : s.promiseSet = true) :
      Step s .startLoopReturn { s with ownerPc := .started }
  | construct (thread : s.thread = .created) :
      Step s .construct { s with thread := .constructed }
  | storeLoop (thread : s.thread = .constructed) :
      Step s .storeLoop { s with loopSet := true, thread := .stored }
  | setPromise (thread : s.thread = .stored) :
      Step s .setPromise { s with promiseSet := true, thread := .promised }
  | callLoop {l : EventLoop F} (thread : s.thread = .promised)
      (step : EventLoop.Step s.loop .loop l) :
      Step s .callLoop { s with loop := l, thread := .looping }
  | lock (thread : s.thread = .returned) : Step s .lock { s with thread := .locked }
  | clearLoop (thread : s.thread = .locked) :
      Step s .clearLoop { s with loopSet := false, thread := .cleared }
  | unlock (thread : s.thread = .cleared) : Step s .unlock { s with thread := .unlocked }
  | finish (thread : s.thread = .unlocked) : Step s .finish { s with thread := .ended }
  | use {b : EventLoop.Action F} {l : EventLoop F} (may : s.mayUse b = true)
      (alive : s.thread.hasLoop = true) (step : EventLoop.Step s.loop b l) :
      Step s (.use b) (s.withLoop l)
  | useDead {b : EventLoop.Action F} (pc : s.ownerPc = .quitting)
      (inside : s.loop.calls s.owner ≠ .idle) (dead : s.thread.hasLoop = false) :
      Step s (.use b) { s with ownerPc := .undefined, log := s.log ++ [.loopGone] }
  | destroy (pc : s.ownerPc = .started) : Step s .destroy { s with ownerPc := .testing }
  | testSet (pc : s.ownerPc = .testing) (set : s.loopSet = true) :
      Step s .testLoop { s with ownerPc := .reading }
  | testNull (pc : s.ownerPc = .testing) (null : s.loopSet = false) :
      Step s .testLoop { s with ownerPc := .leaving }
  | readSet (pc : s.ownerPc = .reading) (set : s.loopSet = true) :
      Step s .readLoop { s with ownerPc := .calling }
  | readNull (pc : s.ownerPc = .reading) (null : s.loopSet = false) :
      Step s .readLoop { s with ownerPc := .undefined, log := s.log ++ [.quitCalled false] }
  | quit {l : EventLoop F} (pc : s.ownerPc = .calling) (alive : s.thread.hasLoop = true)
      (step : EventLoop.Step s.loop (.quit s.owner) l) :
      Step s .quit
        { s with loop := l, ownerPc := .quitting, log := s.log ++ [.quitCalled true] }
  | quitDead (pc : s.ownerPc = .calling) (dead : s.thread.hasLoop = false) :
      Step s .quit { s with ownerPc := .undefined, log := s.log ++ [.quitCalled false] }
  | quitReturn (pc : s.ownerPc = .quitting) : Step s .quitReturn { s with ownerPc := .joining }
  | join (pc : s.ownerPc = .joining) (ended : s.thread = .ended) :
      Step s .join { s with ownerPc := .leaving }
  | leave (pc : s.ownerPc = .leaving) :
      Step s .leave { s with
        ownerPc := .destroyed
        log := s.log ++ [.returned s.thread] }

theorem threadStep_cases (h : s.threadStep a s.thread = some s') : Step s a s' := by
  cases hpc : s.thread with
  | created =>
      cases a with
      | construct =>
          simp only [hpc, threadStep, Option.some.injEq] at h
          rw [← h]
          exact .construct hpc
      | _ => simp [hpc, threadStep] at h
  | constructed =>
      cases a with
      | storeLoop =>
          simp only [hpc, threadStep] at h
          by_cases hidle : s.loop.calls s.loop.threadId = .idle
          · rw [if_pos hidle, Option.some.injEq] at h
            rw [← h]
            exact .storeLoop hpc
          · rw [if_neg hidle] at h
            simp at h
      | _ => simp [hpc, threadStep] at h
  | stored =>
      cases a with
      | setPromise =>
          simp only [hpc, threadStep, Option.some.injEq] at h
          rw [← h]
          exact .setPromise hpc
      | _ => simp [hpc, threadStep] at h
  | promised =>
      cases a with
      | callLoop =>
          simp only [hpc, threadStep, Option.map_eq_some_iff] at h
          obtain ⟨l, hl, rfl⟩ := h
          exact .callLoop hpc (EventLoop.step_cases hl)
      | _ => simp [hpc, threadStep] at h
  | returned =>
      cases a with
      | lock =>
          simp only [hpc, threadStep, Option.some.injEq] at h
          rw [← h]
          exact .lock hpc
      | _ => simp [hpc, threadStep] at h
  | locked =>
      cases a with
      | clearLoop =>
          simp only [hpc, threadStep, Option.some.injEq] at h
          rw [← h]
          exact .clearLoop hpc
      | _ => simp [hpc, threadStep] at h
  | cleared =>
      cases a with
      | unlock =>
          simp only [hpc, threadStep, Option.some.injEq] at h
          rw [← h]
          exact .unlock hpc
      | _ => simp [hpc, threadStep] at h
  | unlocked =>
      cases a with
      | finish =>
          simp only [hpc, threadStep, Option.some.injEq] at h
          rw [← h]
          exact .finish hpc
      | _ => simp [hpc, threadStep] at h
  | unstarted | looping | ended => simp [hpc, threadStep] at h

theorem quit_step (pc : s.ownerPc = .calling) (h : s.ownerStep .quit .calling = some s') :
    Step s .quit s' := by
  simp only [ownerStep] at h
  by_cases halive : s.thread.hasLoop = true
  · rw [if_pos halive, Option.map_eq_some_iff] at h
    obtain ⟨l, hl, rfl⟩ := h
    exact .quit pc halive (EventLoop.step_cases hl)
  · rw [if_neg halive, Option.some.injEq] at h
    rw [← h]
    exact .quitDead pc (by simpa using halive)

theorem testLoop_step (pc : s.ownerPc = .testing) (h : s.ownerStep .testLoop .testing = some s') :
    Step s .testLoop s' := by
  simp only [ownerStep, Option.some.injEq] at h
  rw [← h]
  by_cases hset : s.loopSet = true
  · rw [if_pos hset]
    exact .testSet pc hset
  · rw [if_neg hset]
    exact .testNull pc (by simpa using hset)

theorem readLoop_step (pc : s.ownerPc = .reading) (h : s.ownerStep .readLoop .reading = some s') :
    Step s .readLoop s' := by
  simp only [ownerStep] at h
  by_cases hset : s.loopSet = true
  · rw [if_pos hset, Option.some.injEq] at h
    rw [← h]
    exact .readSet pc hset
  · rw [if_neg hset, Option.some.injEq] at h
    rw [← h]
    exact .readNull pc (by simpa using hset)

/-- A step with a guard. -/
theorem guarded_step {p : Prop} [Decidable p] {m : EventLoopThread F}
    (h : (if p then some m else none) = some s') (hstep : p → Step s a m) : Step s a s' := by
  by_cases hp : p
  · rw [if_pos hp, Option.some.injEq] at h
    rw [← h]
    exact hstep hp
  · rw [if_neg hp] at h
    simp at h

theorem ownerStep_cases (h : s.ownerStep a s.ownerPc = some s') : Step s a s' := by
  cases hpc : s.ownerPc with
  | idle =>
      rw [hpc] at h
      cases a with
      | startLoop =>
          simp only [ownerStep, Option.some.injEq] at h
          rw [← h]
          exact .startLoop hpc
      | _ => simp [ownerStep] at h
  | starting =>
      rw [hpc] at h
      cases a with
      | startLoopReturn => exact guarded_step h (.startLoopReturn hpc)
      | _ => simp [ownerStep] at h
  | started =>
      rw [hpc] at h
      cases a with
      | destroy => exact guarded_step h fun _ => .destroy hpc
      | _ => simp [ownerStep] at h
  | testing =>
      rw [hpc] at h
      cases a with
      | testLoop => exact testLoop_step hpc h
      | _ => simp [ownerStep] at h
  | reading =>
      rw [hpc] at h
      cases a with
      | readLoop => exact readLoop_step hpc h
      | _ => simp [ownerStep] at h
  | calling =>
      rw [hpc] at h
      cases a with
      | quit => exact quit_step hpc h
      | _ => simp [ownerStep] at h
  | quitting =>
      rw [hpc] at h
      cases a with
      | quitReturn => exact guarded_step h fun _ => .quitReturn hpc
      | _ => simp [ownerStep] at h
  | joining =>
      rw [hpc] at h
      cases a with
      | join => exact guarded_step h (.join hpc)
      | _ => simp [ownerStep] at h
  | leaving =>
      rw [hpc] at h
      cases a with
      | leave =>
          simp only [ownerStep, Option.some.injEq] at h
          rw [← h]
          exact .leave hpc
      | _ => simp [ownerStep] at h
  | destroyed | undefined =>
      rw [hpc] at h
      simp [ownerStep] at h

/-- Only the destructor comes to a loop that is gone, inside `quit`. -/
theorem mayUse_dead {b : EventLoop.Action F} (h : s.mayUse b = true)
    (hdead : s.thread.hasLoop = false) :
    s.ownerPc = .quitting ∧ (b = .test s.owner ∨ b = .write s.owner) := by
  have hplace : ¬ (s.thread = .constructed ∨ s.thread = .looping) := by
    rintro (hthread | hthread) <;> simp [hthread, ThreadPc.hasLoop] at hdead
  have hlooping : s.thread ≠ .looping := fun hthread => hplace (Or.inr hthread)
  cases b with
  | test t | write t =>
      simp only [mayUse, hplace, hdead] at h
      split at h
      · simp at h
      · split at h
        · rename_i howner
          exact ⟨by simpa using h, by simp [howner]⟩
        · simp at h
  | queueInLoop t f | runInLoop t f | wakeup t | quit t =>
      simp only [mayUse, hplace, hdead] at h
      split at h
      · simp at h
      · split at h <;> simp at h
  | loop => simp [mayUse] at h
  | _ => simp [mayUse, hlooping] at h

theorem use_step {b : EventLoop.Action F} {l : EventLoop F} (hmay : s.mayUse b = true)
    (hl : s.loop.next b = some l) : Step s (.use b) (s.used l) := by
  unfold used
  by_cases halive : s.thread.hasLoop = true
  · rw [if_pos halive]
    exact .use hmay halive (EventLoop.step_cases hl)
  · have hdead : s.thread.hasLoop = false := by simpa using halive
    rw [if_neg halive]
    obtain ⟨hpc, hcall⟩ := mayUse_dead hmay hdead
    refine .useDead hpc (fun hidle => ?_) hdead
    rcases hcall with rfl | rfl <;> simp [EventLoop.next, EventLoop.callStep, hidle] at hl

theorem step_cases (h : lts.step s a s') : Step s a s' := by
  have h : s.next a = some s' := h
  cases a with
  | use b =>
      simp only [next] at h
      by_cases hmay : s.mayUse b = true
      · rw [if_pos hmay, Option.map_eq_some_iff] at h
        obtain ⟨l, hl, rfl⟩ := h
        exact use_step hmay hl
      · rw [if_neg hmay] at h
        simp at h
  | construct | storeLoop | setPromise | callLoop | lock | clearLoop | unlock | finish =>
      exact threadStep_cases h
  | startLoop | startLoopReturn | destroy | testLoop | readLoop | quit | quitReturn | join
  | leave => exact ownerStep_cases h

/-! ### Fields and places -/

/-- Where a step of the loop leaves the thread. -/
theorem withLoop_thread (l : EventLoop F) :
    (s.thread = .looping ∧ l.pc = .outside ∧ (s.withLoop l).thread = .returned) ∨
      ((s.thread = .looping → l.pc ≠ .outside) ∧ (s.withLoop l).thread = s.thread) := by
  unfold withLoop
  cases hthread : s.thread with
  | looping =>
      cases hpc : l.pc with
      | outside => exact Or.inl ⟨rfl, rfl, rfl⟩
      | _ => exact Or.inr ⟨by simp, rfl⟩
  | _ => exact Or.inr ⟨by simp, rfl⟩

/-- What does not tell `loop()` from its return does not change with a step of the loop. -/
theorem withLoop_same {α : Type} (f : ThreadPc → α) (hf : f .returned = f .looping)
    (l : EventLoop F) : f (s.withLoop l).thread = f s.thread := by
  rcases withLoop_thread (s := s) l with ⟨hthread, -, hret⟩ | ⟨-, hsame⟩
  · rw [hret, hthread, hf]
  · rw [hsame]

structure Shape (s : EventLoopThread F) : Prop where
  loopSet : s.loopSet = s.thread.hasAddress
  promiseSet : s.promiseSet = s.thread.afterPromise
  idle : s.ownerPc = .idle → s.thread = .unstarted
  started : s.ownerPc.afterStart = true → s.promiseSet = true

theorem Shape.step (h : Shape s) (hstep : Step s a s') : Shape s' := by
  cases hstep with
  | startLoop pc =>
      have hthread := h.idle pc
      have hset := h.loopSet
      have hpromise := h.promiseSet
      rw [hthread] at hset hpromise
      exact ⟨hset, hpromise, by simp, by simp [OwnerPc.afterStart]⟩
  | startLoopReturn pc set => exact ⟨h.loopSet, h.promiseSet, by simp, fun _ => set⟩
  | construct thread =>
      have hset := h.loopSet
      have hpromise := h.promiseSet
      rw [thread] at hset hpromise
      exact ⟨hset, hpromise, fun hi => absurd (h.idle hi) (by simp [thread]), h.started⟩
  | storeLoop thread =>
      have hpromise := h.promiseSet
      rw [thread] at hpromise
      exact ⟨rfl, hpromise, fun hi => absurd (h.idle hi) (by simp [thread]), h.started⟩
  | setPromise thread =>
      have hset := h.loopSet
      rw [thread] at hset
      exact ⟨hset, rfl, fun hi => absurd (h.idle hi) (by simp [thread]), fun _ => rfl⟩
  | callLoop thread step =>
      have hset := h.loopSet
      have hpromise := h.promiseSet
      rw [thread] at hset hpromise
      exact ⟨hset, hpromise, fun hi => absurd (h.idle hi) (by simp [thread]), h.started⟩
  | lock thread | unlock thread | finish thread =>
      have hset := h.loopSet
      have hpromise := h.promiseSet
      rw [thread] at hset hpromise
      exact ⟨hset, hpromise, fun hi => absurd (h.idle hi) (by simp [thread]), h.started⟩
  | clearLoop thread =>
      have hpromise := h.promiseSet
      rw [thread] at hpromise
      exact ⟨rfl, hpromise, fun hi => absurd (h.idle hi) (by simp [thread]), h.started⟩
  | @use b l may alive step =>
      refine ⟨?_, ?_, ?_, h.started⟩
      · rw [withLoop_same ThreadPc.hasAddress rfl]
        exact h.loopSet
      · rw [withLoop_same ThreadPc.afterPromise rfl]
        exact h.promiseSet
      · intro hi
        have hthread := h.idle hi
        rcases withLoop_thread (s := s) l with ⟨hl, -, -⟩ | ⟨-, hsame⟩
        · rw [hthread] at hl
          simp at hl
        · rw [hsame, hthread]
  | destroy pc | testSet pc set | testNull pc null | readSet pc set | readNull pc null
  | quitDead pc dead | useDead pc inside dead | quitReturn pc | join pc ended | leave pc =>
      refine ⟨h.loopSet, h.promiseSet, by simp, fun _ => h.started ?_⟩
      rw [pc]
      rfl
  | quit pc alive step =>
      refine ⟨h.loopSet, h.promiseSet, by simp, fun _ => h.started ?_⟩
      rw [pc]
      rfl

theorem shape_of_reachable (h : lts.Reachable s) : Shape s := by
  refine h.induct ?_ ?_
  · rintro s₀ ⟨owner, t, -, rfl⟩
    exact ⟨rfl, rfl, fun _ => rfl, fun ha => absurd ha (by simp [new, OwnerPc.afterStart])⟩
  · intro m b m' _ hm hstep
    exact hm.step (step_cases hstep)

/-! ### The destructor inside `quit` -/

/-- The destructor's call of `quit` has not returned. -/
def InQuit (s : EventLoopThread F) : Prop :=
  s.ownerPc = .quitting ∧ s.loop.calls s.owner ≠ .idle

instance (s : EventLoopThread F) : Decidable s.InQuit :=
  inferInstanceAs (Decidable (_ ∧ _))

/-- `threadFunc` does not return while the destructor is inside `quit`. -/
def EndsAfterQuit (s : EventLoopThread F) : Action F → Prop
  | .finish => ¬ s.InQuit
  | _ => True

instance (s : EventLoopThread F) (a : Action F) : Decidable (EndsAfterQuit s a) := by
  cases a <;> unfold EndsAfterQuit <;> infer_instance

/-- The loop is there while the destructor is inside `quit`. -/
def Outlasted (s : EventLoopThread F) : Prop := s.InQuit → s.thread.hasLoop = true

theorem Step.outlasted (hstep : Step s a s') (hcond : EndsAfterQuit s a) : Outlasted s' := by
  rintro ⟨hpc, hcall⟩
  cases hstep with
  | construct thread | storeLoop thread | setPromise thread | callLoop thread step | lock thread
  | clearLoop thread | unlock thread => rfl
  | finish thread => exact absurd ⟨hpc, hcall⟩ hcond
  | @use b l may alive step =>
      rw [withLoop_same ThreadPc.hasLoop rfl]
      exact alive
  | quit pc alive step => exact alive
  | startLoop pc | startLoopReturn pc set | useDead pc inside dead | destroy pc | testSet pc set
  | testNull pc null | readSet pc set | readNull pc null | quitDead pc dead | quitReturn pc
  | join pc ended | leave pc => simp at hpc

/-! ### Waiting for the thread -/

/-- The destructor looks at `loop_` before `loop()` has returned or after the last access of
`threadFunc`, and calls `quit` before `loop()` has returned; and `threadFunc` does not return while
it is inside `quit`. -/
def DestroysInTime (s : EventLoopThread F) : Action F → Prop
  | .testLoop => s.thread.beforeReturn = true ∨ s.thread.lastAccessMade = true
  | .readLoop => s.thread.beforeReturn = true
  | .quit => s.thread.beforeReturn = true
  | .finish => ¬ s.InQuit
  | _ => True

instance (s : EventLoopThread F) (a : Action F) : Decidable (DestroysInTime s a) := by
  cases a <;> unfold DestroysInTime <;> infer_instance

theorem DestroysInTime.endsAfterQuit (h : DestroysInTime s a) : EndsAfterQuit s a := by
  cases a with
  | finish => exact h
  | _ => trivial

/-- What the destructor has done so far is right, and it leaves once the thread is done. -/
structure Waits (s : EventLoopThread F) : Prop where
  quitCalled : ∀ alive, .quitCalled alive ∈ s.log → alive = true
  loopGone : .loopGone ∉ s.log
  returned : ∀ pc, .returned pc ∈ s.log → pc.lastAccessMade = true
  leaving : s.ownerPc = .leaving → s.thread.lastAccessMade = true

namespace Waits

/-- A step of the destructor that adds nothing to its log. -/
theorem keep (h : Waits s) (hlog : s'.log = s.log)
    (hleaving : s'.ownerPc = .leaving → s'.thread.lastAccessMade = true) : Waits s' := by
  refine ⟨?_, ?_, ?_, hleaving⟩
  · rw [hlog]
    exact h.quitCalled
  · rw [hlog]
    exact h.loopGone
  · rw [hlog]
    exact h.returned

theorem step (h : Waits s) (hshape : Shape s) (hout : Outlasted s) (hcond : DestroysInTime s a)
    (hstep : Step s a s') : Waits s' := by
  -- the loop is there for a destructor that comes before the return of `loop()`
  have hthere : s.ownerPc.afterStart = true → s.thread.beforeReturn = true →
      s.loopSet = true ∧ s.thread.hasLoop = true := by
    intro hafter hbefore
    have hpromise := hshape.started hafter
    rw [hshape.promiseSet] at hpromise
    rw [hshape.loopSet]
    exact ThreadPc.of_promise hpromise hbefore
  cases hstep with
  | startLoop pc | startLoopReturn pc set | destroy pc | testSet pc set | readSet pc set
  | quitReturn pc => exact h.keep rfl (by simp)
  | construct thread | storeLoop thread | setPromise thread | lock thread | clearLoop thread
  | unlock thread =>
      refine h.keep rfl fun hl => ?_
      have hdone := h.leaving hl
      rw [thread] at hdone
      simp [ThreadPc.lastAccessMade] at hdone
  | callLoop thread step =>
      refine h.keep rfl fun hl => ?_
      have hdone := h.leaving hl
      rw [thread] at hdone
      simp [ThreadPc.lastAccessMade] at hdone
  | finish thread => exact h.keep rfl fun _ => rfl
  | use may alive step =>
      refine h.keep rfl fun hl => ?_
      rw [withLoop_same ThreadPc.lastAccessMade rfl]
      exact h.leaving hl
  | useDead pc inside dead =>
      have halive := hout ⟨pc, inside⟩
      rw [dead] at halive
      simp at halive
  | testNull pc null =>
      refine h.keep rfl fun _ => ?_
      rcases hcond with hbefore | hdone
      · have hset := (hthere (by rw [pc]; rfl) hbefore).1
        rw [null] at hset
        simp at hset
      · exact hdone
  | readNull pc null =>
      have hset := (hthere (by rw [pc]; rfl) hcond).1
      rw [null] at hset
      simp at hset
  | quit pc alive step =>
      refine ⟨?_, ?_, ?_, by simp⟩
      · intro b hb
        rcases List.mem_append.mp hb with hb | hb
        · exact h.quitCalled b hb
        · simpa using hb
      · intro hb
        rcases List.mem_append.mp hb with hb | hb
        · exact h.loopGone hb
        · simp at hb
      · intro b hb
        rcases List.mem_append.mp hb with hb | hb
        · exact h.returned b hb
        · simp at hb
  | quitDead pc dead =>
      have hloop := (hthere (by rw [pc]; rfl) hcond).2
      rw [dead] at hloop
      simp at hloop
  | join pc ended => exact h.keep rfl fun _ => by rw [ended]; rfl
  | leave pc =>
      refine ⟨?_, ?_, ?_, by simp⟩
      · intro b hb
        rcases List.mem_append.mp hb with hb | hb
        · exact h.quitCalled b hb
        · simp at hb
      · intro hb
        rcases List.mem_append.mp hb with hb | hb
        · exact h.loopGone hb
        · simp at hb
      · intro b hb
        rcases List.mem_append.mp hb with hb | hb
        · exact h.returned b hb
        · rw [List.mem_singleton, DestructorEvent.returned.injEq] at hb
          rw [hb]
          exact h.leaving pc

end Waits

/-- A thread that does not end while its destructor is inside `quit` leaves it the loop. -/
theorem outlasted_of_reachable (h : (lts.restrict EndsAfterQuit).Reachable s) : Outlasted s := by
  refine h.induct ?_ ?_
  · rintro s₀ ⟨owner, t, -, rfl⟩ ⟨hpc, -⟩
    simp [new] at hpc
  · rintro m b m' - - ⟨hcond, hstep⟩
    exact (step_cases hstep).outlasted hcond

/-- A destructor that comes in time calls `quit` on a loop that exists and goes on to exist until
`quit` has returned, and returns after the last access of `threadFunc`. -/
theorem destructor_waits (h : (lts.restrict DestroysInTime).Reachable s) :
    (∀ alive, .quitCalled alive ∈ s.log → alive = true) ∧ .loopGone ∉ s.log ∧
      ∀ pc, .returned pc ∈ s.log → pc.lastAccessMade = true := by
  have hwaits : Waits s := by
    refine h.induct ?_ ?_
    · rintro s₀ ⟨owner, t, -, rfl⟩
      exact ⟨by simp [new], by simp [new], by simp [new], by simp [new]⟩
    · rintro m b m' hr hm ⟨hcond, hstep⟩
      have hout := outlasted_of_reachable (hr.restrict_mono fun _ _ hc => hc.endsAfterQuit)
      exact hm.step (shape_of_reachable hr.of_restrict) hout hcond (step_cases hstep)
  exact ⟨hwaits.quitCalled, hwaits.loopGone, hwaits.returned⟩

/-! ### `m_quit` after `startLoop` -/

/-- The owner's `quit` stores after the store of `loop()`. -/
def QuitsInLoop (s : EventLoopThread F) : Action F → Prop
  | .quit => s.thread.beforeLoop = false
  | .use (.quit t) => t = s.owner → s.thread.beforeLoop = false
  | _ => True

/-- The place of the thread in `threadFunc` and the place of the loop. -/
structure Looping (s : EventLoopThread F) : Prop where
  before : s.thread.beforeLoop = true → s.loop.pc = .outside ∧ .loopReturned ∉ s.loop.log
  within : s.thread = .looping → s.loop.pc ≠ .outside ∧ .loopReturned ∉ s.loop.log
  after : s.thread.beforeReturn = false → s.loop.pc = .outside

/-- The owner's `quit` has stored, and the store stands until `loop()` returns. -/
structure Quits (s : EventLoopThread F) : Prop where
  within : .quit s.owner ∈ s.loop.log → s.thread.beforeLoop = false
  kept : .quit s.owner ∈ s.loop.log → .loopReturned ∉ s.loop.log → s.loop.quit = true
  called : s.ownerPc = .quitting ∨ s.ownerPc = .joining → .quit s.owner ∈ s.loop.log

theorem mayUse_ne_loop {b : EventLoop.Action F} (h : s.mayUse b = true) : b ≠ .loop := by
  intro hb
  rw [hb] at h
  simp [mayUse] at h

namespace Looping

/-- A step of the loop that is not its entry and not its return. -/
theorem inside (h : Looping s) {b : EventLoop.Action F} {l : EventLoop F} (hb : b ≠ .loop)
    (step : EventLoop.Step s.loop b l) (hloop : s'.loop = l) (hthread : s'.thread = s.thread)
    (hstays : s.thread = .looping → l.pc ≠ .outside) : Looping s' := by
  refine ⟨?_, ?_, ?_⟩
  · intro hbefore
    rw [hthread] at hbefore
    obtain ⟨hpc, hlog⟩ := h.before hbefore
    rw [hloop]
    refine ⟨step.outside hb hpc, ?_⟩
    intro hret
    rcases step.returned_logged hret with hret | ⟨htest, -⟩
    · exact hlog hret
    · rw [hpc] at htest
      simp at htest
  · intro hlooping
    rw [hthread] at hlooping
    rw [hloop]
    refine ⟨hstays hlooping, ?_⟩
    intro hret
    rcases step.returned_logged hret with hret | ⟨-, hout⟩
    · exact (h.within hlooping).2 hret
    · exact hstays hlooping hout
  · intro hafter
    rw [hthread] at hafter
    rw [hloop]
    exact step.outside hb (h.after hafter)

/-- A thread that has left `loop()`. -/
theorem left (hpc : s'.loop.pc = .outside) (hreturn : s'.thread.beforeReturn = false) :
    Looping s' := by
  refine ⟨?_, ?_, fun _ => hpc⟩
  · intro hbefore
    cases hthread : s'.thread <;>
      simp [hthread, ThreadPc.beforeReturn, ThreadPc.beforeLoop] at hbefore hreturn
  · intro hlooping
    rw [hlooping] at hreturn
    simp [ThreadPc.beforeReturn] at hreturn

theorem step (h : Looping s) (hshape : Shape s) (hstep : Step s a s') : Looping s' := by
  cases hstep with
  | startLoop pc =>
      exact ⟨fun _ => h.before (by rw [hshape.idle pc]; rfl), fun hl => by simp at hl,
        fun ha => by simp [ThreadPc.beforeReturn, ThreadPc.beforeLoop] at ha⟩
  | construct thread | storeLoop thread | setPromise thread =>
      exact ⟨fun _ => h.before (by rw [thread]; rfl), fun hl => by simp at hl,
        fun ha => by simp [ThreadPc.beforeReturn, ThreadPc.beforeLoop] at ha⟩
  | callLoop thread step =>
      obtain ⟨-, hlog⟩ := h.before (by rw [thread]; rfl)
      cases step with
      | loop free pc =>
          exact ⟨fun hb => by simp [ThreadPc.beforeLoop] at hb, fun _ => ⟨by simp, hlog⟩,
            fun ha => by simp [ThreadPc.beforeReturn] at ha⟩
  | lock thread | clearLoop thread | unlock thread | finish thread =>
      exact left (h.after (by rw [thread]; rfl)) rfl
  | @use b l may alive step =>
      rcases withLoop_thread (s := s) l with ⟨-, hout, hret⟩ | ⟨hstays, hsame⟩
      · exact left hout (by rw [hret]; rfl)
      · exact h.inside (mayUse_ne_loop may) step rfl hsame hstays
  | @quit l pc alive step =>
      refine h.inside (by simp) step rfl rfl fun hlooping => ?_
      cases step with
      | quit may => exact (h.within hlooping).1
  | startLoopReturn pc set | destroy pc | testSet pc set | testNull pc null | readSet pc set
  | readNull pc null | quitDead pc dead | useDead pc inside dead | quitReturn pc | join pc ended
  | leave pc =>
      exact ⟨h.before, h.within, h.after⟩

end Looping

theorem looping_of_reachable (h : lts.Reachable s) : Looping s := by
  refine h.induct ?_ ?_
  · rintro s₀ ⟨owner, t, -, rfl⟩
    exact ⟨fun _ => ⟨rfl, by simp [new, EventLoop.new]⟩, fun hl => by simp [new] at hl,
      fun _ => rfl⟩
  · intro m b m' hr hm hstep
    exact hm.step (shape_of_reachable hr) (step_cases hstep)

namespace Quits

/-- The owner has not called `quit` before `loop()` is entered. -/
theorem not_called (h : Quits s) (hbefore : s.thread.beforeLoop = true) :
    .quit s.owner ∉ s.loop.log := by
  intro hq
  rw [h.within hq] at hbefore
  simp at hbefore

/-- A step of the loop that is not its entry. -/
theorem inside (h : Quits s) {b : EventLoop.Action F} {l : EventLoop F} (hb : b ≠ .loop)
    (step : EventLoop.Step s.loop b l) (hloop : s'.loop = l) (howner : s'.owner = s.owner)
    (hthread : s'.thread.beforeLoop = s.thread.beforeLoop)
    (hcond : b = .quit s.owner → s.thread.beforeLoop = false)
    (hcalled : s'.ownerPc = .quitting ∨ s'.ownerPc = .joining →
      .quit s.owner ∈ l.log) : Quits s' := by
  refine ⟨?_, ?_, ?_⟩
  · intro hq
    rw [hloop, howner] at hq
    rw [hthread]
    rcases step.quit_logged hq with hq | hq
    · exact h.within hq
    · exact hcond hq
  · intro hq hret
    rw [hloop, howner] at hq
    rw [hloop] at hret ⊢
    rcases step.quit_logged hq with hq | hq
    · refine step.quit_kept hb (h.kept hq fun hold => hret ?_)
      obtain ⟨es, hes⟩ := step.log_grows
      rw [hes]
      exact List.mem_append_left _ hold
    · subst hq
      cases step with
      | quit may => rfl
  · intro hpc
    rw [hloop, howner]
    exact hcalled hpc

theorem step (h : Quits s) (hshape : Shape s) (hcond : QuitsInLoop s a) (hstep : Step s a s') :
    Quits s' := by
  cases hstep with
  | startLoop pc =>
      have hnot := h.not_called (by rw [hshape.idle pc]; rfl)
      exact ⟨fun hq => absurd hq hnot, fun hq => absurd hq hnot, by simp⟩
  | construct thread | storeLoop thread | setPromise thread =>
      have hnot := h.not_called (by rw [thread]; rfl)
      exact ⟨fun hq => absurd hq hnot, fun hq => absurd hq hnot, h.called⟩
  | callLoop thread step =>
      have hnot := h.not_called (by rw [thread]; rfl)
      cases step with
      | loop free pc => exact ⟨fun _ => rfl, fun hq => absurd hq hnot, h.called⟩
  | lock thread | clearLoop thread | unlock thread | finish thread =>
      exact ⟨fun _ => rfl, h.kept, h.called⟩
  | @use b l may alive step =>
      refine h.inside (mayUse_ne_loop may) step rfl rfl (withLoop_same ThreadPc.beforeLoop rfl l) ?_
        fun hpc => ?_
      · intro hb
        rw [hb] at hcond
        exact hcond rfl
      · obtain ⟨es, hes⟩ := step.log_grows
        rw [hes]
        exact List.mem_append_left _ (h.called hpc)
  | quit pc alive step =>
      refine h.inside (by simp) step rfl rfl rfl (fun _ => hcond) fun _ => ?_
      cases step with
      | quit may => exact List.mem_append_right _ (List.mem_singleton.mpr rfl)
  | quitReturn pc => exact ⟨h.within, h.kept, fun _ => h.called (Or.inl pc)⟩
  | startLoopReturn pc set | destroy pc | testSet pc set | testNull pc null | readSet pc set
  | readNull pc null | quitDead pc dead | useDead pc inside dead | join pc ended | leave pc =>
      exact ⟨h.within, h.kept, by simp⟩

end Quits

/-- A `quit` of the owner that stores after the store of `loop()` stands until `loop()`
returns, so the destructor is not in `join` on a thread that polls with `m_quit` unset. -/
theorem quit_stands (h : (lts.restrict QuitsInLoop).Reachable s) :
    (.quit s.owner ∈ s.loop.log → .loopReturned ∉ s.loop.log → s.loop.quit = true) ∧
      (s.ownerPc = .joining → ¬ (s.loop.pc = .polling ∧ s.loop.quit = false)) := by
  have hquits : Quits s := by
    refine h.induct ?_ ?_
    · rintro s₀ ⟨owner, t, -, rfl⟩
      exact ⟨by simp [new, EventLoop.new], by simp [new, EventLoop.new], by simp [new]⟩
    · rintro m b m' hr hm ⟨hcond, hstep⟩
      exact hm.step (shape_of_reachable hr.of_restrict) hcond (step_cases hstep)
  refine ⟨hquits.kept, ?_⟩
  rintro hjoin ⟨hpc, hunset⟩
  have hcalled := hquits.called (Or.inr hjoin)
  have hlooping := looping_of_reachable h.of_restrict
  have hnot : .loopReturned ∉ s.loop.log := by
    by_cases hafter : s.thread.beforeReturn = false
    · rw [hlooping.after hafter] at hpc
      simp at hpc
    · cases hthread : s.thread with
      | looping => exact (hlooping.within hthread).2
      | unstarted | created | constructed | stored | promised =>
          exact (hlooping.before (by rw [hthread]; rfl)).2
      | returned | locked | cleared | unlocked | ended =>
          rw [hthread] at hafter
          exact absurd rfl hafter
  rw [hquits.kept hcalled hnot] at hunset
  simp at hunset

/-! ### Runs -/

/-- A run of an object with the owner 1 and the thread 2, found by computing it. -/
theorem exists_of_run (C : EventLoopThread F → Action F → Prop)
    (c : EventLoopThread F → Action F → Bool) (hc : ∀ s a, c s a = true → C s a)
    (as : List (Action F)) (p : EventLoopThread F → Prop) [DecidablePred p]
    (h : (Lts.run (Lts.guarded c next) (new 1 2) as).any (fun s => decide (p s)) = true) :
    ∃ s, (lts.restrict C).Reachable s ∧ p s := by
  obtain ⟨s, hrun, hp⟩ := Lts.Run.of_run (T := lts) (I := fun _ => True)
    (fun _ _ _ _ hnext => ⟨hnext, trivial⟩) (fun s a _ hca => hc s a hca)
    ⟨1, 2, by decide, rfl⟩ trivial h
  exact ⟨s, ⟨_, hrun⟩, of_decide_eq_true hp⟩

/-- `startLoop`, up to its return. -/
def starting : List (Action F) :=
  [.startLoop, .construct, .storeLoop, .setPromise, .startLoopReturn]

/-- The destructor, up to the end of its call of `quit`. -/
def quitting : List (Action F) :=
  [.destroy, .testLoop, .readLoop, .quit, .use (.test 1), .use (.write 1), .quitReturn]

/-- From `epoll_wait`, woken, to the return of `loop()`. -/
def ending : List (Action F) :=
  [.use (.poll [.wakeup]), .use .handleEvent, .use .setCalling, .use .swap, .use .clearCalling,
    .use .release, .use .testQuit]

/-- The owner destroys the object while the loop is in `epoll_wait`. -/
theorem destructor_waits_polling : ∃ s : EventLoopThread Nat, s.ownerPc = .destroyed ∧
    s.log = [.quitCalled true, .returned .ended] ∧ .loopGone ∉ s.log ∧
    ∀ pc, .returned pc ∈ s.log → pc.lastAccessMade = true := by
  obtain ⟨s, hr, hpc, hlog⟩ := exists_of_run DestroysInTime (fun s a => decide (DestroysInTime s a))
    (fun _ _ => of_decide_eq_true)
    (starting ++ [Action.callLoop, .use .testQuit] ++ quitting ++ ending ++
      [Action.lock, .clearLoop, .unlock, .finish, .join, .leave])
    (fun s : EventLoopThread Nat => s.ownerPc = .destroyed ∧
      s.log = [DestructorEvent.quitCalled true, .returned .ended]) (by decide +kernel)
  exact ⟨s, hpc, hlog, (destructor_waits hr).2⟩

/-- From a callback to the return of `loop()`, when it has been told to quit. -/
def returning : List (Action F) :=
  [.use .callbackEnd, .use .setCalling, .use .swap, .use .clearCalling, .use .release,
    .use .testQuit]

/-- A callback has told the loop to quit.  The destructor finds `loop_` null while the thread
holds the mutex, and returns; or it finds `loop_` set, and calls `quit` when the loop is
gone.  And with nobody else to quit: the destructor's own `quit` stores, the thread comes to its
end, and `quit` goes on to read `m_threadId` of a loop that is gone. -/
theorem destructor_raced :
    (∃ s : EventLoopThread Nat, lts.Reachable s ∧ s.ownerPc = .destroyed ∧
      s.thread = .cleared ∧ s.log = [.returned .cleared]) ∧
    (∃ s : EventLoopThread Nat, lts.Reachable s ∧ s.thread = .ended ∧
      s.log = [.quitCalled false]) ∧
    ∃ s : EventLoopThread Nat, lts.Reachable s ∧ s.thread = .ended ∧
      s.loop.log = [.quit s.owner, .swapped, .loopReturned] ∧
      s.log = [.quitCalled true, .loopGone] := by
  refine ⟨?_, ?_, ?_⟩
  · obtain ⟨s, hr, hs⟩ := exists_of_run (fun _ _ => True) (fun _ _ => true)
      (fun _ _ _ => trivial)
      (starting ++ [Action.callLoop, .use .testQuit, .use (.poll [.other]), .use .handleEvent,
        .use (.quit 2), .use (.test 2)] ++ returning ++
        [Action.lock, .clearLoop, .destroy, .testLoop, .leave])
      (fun s : EventLoopThread Nat => s.ownerPc = .destroyed ∧ s.thread = .cleared ∧
        s.log = [DestructorEvent.returned .cleared]) (by decide +kernel)
    exact ⟨s, hr.of_restrict, hs⟩
  · obtain ⟨s, hr, hs⟩ := exists_of_run (fun _ _ => True) (fun _ _ => true)
      (fun _ _ _ => trivial)
      (starting ++ [Action.callLoop, .use .testQuit, .use (.poll [.other]), .use .handleEvent,
        .use (.quit 2), .use (.test 2)] ++ returning ++ [Action.destroy, .testLoop, .readLoop,
        .lock, .clearLoop, .unlock, .finish, .quit])
      (fun s : EventLoopThread Nat => s.thread = .ended ∧
        s.log = [DestructorEvent.quitCalled false])
      (by decide +kernel)
    exact ⟨s, hr.of_restrict, hs⟩
  · obtain ⟨s, hr, hs⟩ := exists_of_run (fun _ _ => True) (fun _ _ => true)
      (fun _ _ _ => trivial)
      (starting ++ [Action.callLoop, .use .testQuit, .use (.poll [.other]), .use .handleEvent,
        .destroy, .testLoop, .readLoop, .quit] ++ returning ++
        [Action.lock, .clearLoop, .unlock, .finish, .use (.test 1)])
      (fun s : EventLoopThread Nat => s.thread = .ended ∧
        s.loop.log = [LoopEvent.quit s.owner, .swapped, .loopReturned] ∧
        s.log = [DestructorEvent.quitCalled true, .loopGone]) (by decide +kernel)
    exact ⟨s, hr.of_restrict, hs⟩

/-- The owner is in `join` while the loop is still in `epoll_wait`. -/
theorem quit_stands_joining : ∃ s : EventLoopThread Nat, s.ownerPc = .joining ∧
    s.loop.pc = .polling ∧ s.loop.quit = true := by
  obtain ⟨s, hr, hjoin, hpc, hlog, hret⟩ := exists_of_run QuitsInLoop
    (fun s a => match a with
      | .quit => !s.thread.beforeLoop
      | .use (.quit _) => false
      | _ => true)
    (by
      intro s a h
      cases a with
      | quit => simpa [QuitsInLoop] using h
      | use b => cases b <;> first | exact trivial | simp at h
      | _ => trivial)
    (starting ++ [Action.callLoop, .use .testQuit] ++ quitting)
    (fun s : EventLoopThread Nat => s.ownerPc = .joining ∧ s.loop.pc = .polling ∧
      .quit s.owner ∈ s.loop.log ∧ .loopReturned ∉ s.loop.log) (by decide +kernel)
  exact ⟨s, hjoin, hpc, (quit_stands hr).1 hlog hret⟩

/-- The owner destroys the object as soon as `startLoop` has returned, before the thread has
entered `loop()`: the thread polls and the destructor waits for it. -/
theorem quit_lost : ∃ s : EventLoopThread Nat, lts.Reachable s ∧ s.ownerPc = .joining ∧
    .quit s.owner ∈ s.loop.log ∧ .loopReturned ∉ s.loop.log ∧
    s.loop.pc = .polling ∧ s.loop.quit = false ∧ s.loop.wakeupFd = 0 := by
  obtain ⟨s, hr, hs⟩ := exists_of_run (fun _ _ => True) (fun _ _ => true) (fun _ _ _ => trivial)
    (starting ++ quitting ++ [Action.callLoop, .use .testQuit, .use (.poll [.wakeup]),
      .use .handleEvent, .use .setCalling, .use .swap, .use .clearCalling, .use .release,
      .use .testQuit])
    (fun s : EventLoopThread Nat => s.ownerPc = .joining ∧
      .quit s.owner ∈ s.loop.log ∧ .loopReturned ∉ s.loop.log ∧
      s.loop.pc = .polling ∧ s.loop.quit = false ∧ s.loop.wakeupFd = 0) (by decide +kernel)
  exact ⟨s, hr.of_restrict, hs⟩

end EventLoopThread

end Muduo
