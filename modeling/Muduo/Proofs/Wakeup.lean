/-
Whether the loop wakes up for what is in its queue.

`queueInLoop` writes to the eventfd unless it runs on the loop's thread outside a batch.
From the swap to the next `epoll_wait` nothing resets the counter, so a queue that is not
empty there is covered: the counter is positive, or some other thread is still on its way to
the write, or the loop's own thread is, inside a functor.  Between `epoll_wait` and the swap
nothing need cover the queue, because the swap takes all of it.

A call on the loop's thread before `loop()`, or from a destructor at the end of a batch, does
not write and is not followed by a swap.  It is harmless when the loop will be woken anyway.
-/
import Muduo.Proofs.EventLoop

namespace Muduo

/-- Inside `queueInLoop`, between the push and the write. -/
def LoopCall.Pushing : LoopCall → Prop
  | .pushed _ => True
  | .waking (some _) => True
  | _ => False

/-- The swap comes before the next `epoll_wait`. -/
def LoopPc.beforeSwap {F : Type} : LoopPc F → Bool
  | .dispatching => true
  | .callback => true
  | .swapping => true
  | _ => false

/-- User code runs that is in no callback and no functor. -/
def LoopPc.outsideCallbacks {F : Type} : LoopPc F → Bool
  | .outside => true
  | .releasing => true
  | _ => false

/-- Inside `doPendingFunctors`, up to its last store. -/
def LoopPc.inBatch {F : Type} : LoopPc F → Bool
  | .swapping => true
  | .batch => true
  | .functor _ => true
  | _ => false

namespace EventLoop

variable {F : Type} {s s' : EventLoop F} {a : Action F} {W : LoopCall → Prop}

theorem eventfdWrite_pos (n : Nat) : 0 < eventfdWrite n := by
  unfold eventfdWrite
  by_cases h : n < 2 ^ 64 - 2
  · rw [if_pos h]
    omega
  · rw [if_neg h]
    omega

/-! ### The flag and the loop's own calls -/

/-- The flag is up from before the swap to the end of the batch, and outside user code the
loop's thread is in no call. -/
structure Flagged (s : EventLoop F) : Prop where
  calling : s.callingPendingFunctors = s.pc.inBatch
  idle : s.pc.isUser = false → s.calls s.threadId = .idle

namespace Flagged

/-- A step of a call of a thread that may be in one. -/
theorem setCall (h : Flagged s) {t : Tid} (c : LoopCall)
    (ht : t = s.threadId → s.pc.isUser = true) : Flagged (s.setCall t c) := by
  refine ⟨h.calling, ?_⟩
  intro huser
  show Function.update s.calls t c s.threadId = .idle
  by_cases heq : t = s.threadId
  · have huser : s.pc.isUser = false := huser
    rw [ht heq] at huser
    simp at huser
  · rw [Function.update_of_ne (Ne.symm heq)]
    exact h.idle huser

/-- A thread in a call is not the loop's, or runs user code. -/
theorem isUser (h : Flagged s) {t : Tid} (hne : s.calls t ≠ .idle) :
    t = s.threadId → s.pc.isUser = true := by
  intro ht
  by_contra huser
  rw [ht] at hne
  exact hne (h.idle (by simpa using huser))

theorem push (h : Flagged s) {t : Tid} {f : F} (may : MayCall s t) : Flagged (s.push t f) := by
  have hset := h.setCall (.pushed (pushed s.log).length) may.user
  exact ⟨hset.calling, hset.idle⟩

theorem step (h : Flagged s) (hstep : Step s a s') : Flagged s' := by
  cases hstep with
  | queueInLoop may | runQueued may other => exact h.push may
  | runAtOnce may => exact ⟨h.calling, h.idle⟩
  | wakeup may => exact h.setCall _ may.user
  | quit may =>
      have hset := h.setCall .quitStored may.user
      exact ⟨hset.calling, hset.idle⟩
  | wake call needed => exact h.setCall _ (h.isUser (by simp [call]))
  | noWake call calling =>
      have hset := h.setCall .idle (h.isUser (t := s.threadId) (by simp [call]))
      exact ⟨hset.calling, hset.idle⟩
  | quitWake call other => exact h.setCall _ (h.isUser (by simp [call]))
  | quitNoWake call => exact h.setCall _ (h.isUser (by simp [call]))
  | @writeFor t n call =>
      have hset := h.setCall .idle (h.isUser (t := t) (by simp [call]))
      exact ⟨hset.calling, hset.idle⟩
  | @write t call =>
      have hset := h.setCall .idle (h.isUser (t := t) (by simp [call]))
      exact ⟨hset.calling, hset.idle⟩
  | handleRead free pc active => exact ⟨h.calling, fun _ => free⟩
  | setCalling free pc active | clearCalling free pc funcs => exact ⟨rfl, fun _ => free⟩
  | loop free pc | leave free pc hquit | enterPoll free pc hquit | poll free pc reported
  | callback free pc active | callbackEnd free pc | swap free pc | runFunctor free pc funcs
  | functorEnd free pc | release free pc =>
      have hcalling := h.calling
      rw [pc] at hcalling
      exact ⟨hcalling, fun _ => free⟩

end Flagged

theorem flagged_of_reachable (h : lts.Reachable s) : Flagged s := by
  refine h.induct ?_ ?_
  · rintro s₀ ⟨t, rfl⟩
    exact ⟨rfl, fun _ => rfl⟩
  · intro m b m' _ hm hstep
    exact hm.step (step_cases hstep)

/-! ### Covered -/

/-- A property that another thread's call has from its push to its write. -/
structure Writing (W : LoopCall → Prop) : Prop where
  idle : ¬ W .idle
  pushed : ∀ n, W (.pushed n)
  waking : ∀ n, W (.waking (some n))
  quit : W .quitStored → W (.waking none)

/-- The loop is about to be woken by something else than what it does next. -/
def Woken (W : LoopCall → Prop) (s : EventLoop F) : Prop :=
  0 < s.wakeupFd ∨ ∃ t, t ≠ s.threadId ∧ W (s.calls t)

/-- The loop will be woken: also its own thread may be on its way to the write. -/
def Covered (W : LoopCall → Prop) (s : EventLoop F) : Prop :=
  Woken W s ∨ ((s.calls s.threadId).Pushing ∧ s.callingPendingFunctors = true)

theorem Woken.setCall (h : Woken W s) {t : Tid} {c : LoopCall}
    (hc : t ≠ s.threadId → W (s.calls t) → W c) : Woken W (s.setCall t c) := by
  rcases h with hpos | ⟨u, hu, hw⟩
  · exact Or.inl hpos
  · refine Or.inr ⟨u, hu, ?_⟩
    show W (Function.update s.calls t c u)
    by_cases hut : u = t
    · rw [hut, Function.update_self]
      rw [hut] at hu hw
      exact hc hu hw
    · rw [Function.update_of_ne hut]
      exact hw

theorem Covered.setCall (h : Covered W s) {t : Tid} {c : LoopCall}
    (hother : t ≠ s.threadId → W (s.calls t) → W c)
    (hself : t = s.threadId → (s.calls t).Pushing → s.callingPendingFunctors = true →
      c.Pushing) : Covered W (s.setCall t c) := by
  rcases h with hwoken | ⟨hpush, hcalling⟩
  · exact Or.inl (hwoken.setCall hother)
  · refine Or.inr ⟨?_, hcalling⟩
    show (Function.update s.calls t c s.threadId).Pushing
    by_cases ht : t = s.threadId
    · rw [ht, Function.update_self]
      exact hself ht (by rw [ht]; exact hpush) hcalling
    · rw [Function.update_of_ne (Ne.symm ht)]
      exact hpush

/-- What a step of another thread's push leaves. -/
theorem covered_push (hW : Writing W) {t : Tid} {f : F} (ht : t ≠ s.threadId) :
    Covered W (s.push t f) := by
  refine Or.inl (Or.inr ⟨t, ht, ?_⟩)
  show W (Function.update s.calls t (.pushed (pushed s.log).length) t)
  rw [Function.update_self]
  exact hW.pushed _

/-- The loop's thread queues outside callbacks and functors only when the loop is about to
be woken anyway. -/
def QueuesWoken (W : LoopCall → Prop) (s : EventLoop F) : Action F → Prop
  | .queueInLoop t _ => t = s.threadId → s.pc.outsideCallbacks = true → Woken W s
  | _ => True

/-- From the swap on, what is in the queue is covered. -/
def Watched (W : LoopCall → Prop) (s : EventLoop F) : Prop :=
  s.pc.beforeSwap = false → s.pendingFunctors ≠ [] → Covered W s

theorem watched_push (hW : Writing W) (hflag : Flagged s) {t : Tid} {f : F}
    (may : MayCall s t) (hcond : QueuesWoken W s (.queueInLoop t f)) :
    Watched W (s.push t f) := by
  intro hswap _
  by_cases ht : t = s.threadId
  · subst ht
    have huser := may.user rfl
    have hswap : s.pc.beforeSwap = false := hswap
    cases hpc : s.pc with
    | outside | releasing =>
        have hwoken := hcond rfl (by rw [hpc]; rfl)
        exact Or.inl (hwoken.setCall fun hne => absurd rfl hne)
    | functor g =>
        -- the flag is up, so the test will lead to the write
        refine Or.inr ⟨?_, ?_⟩
        · show (Function.update s.calls s.threadId _ s.threadId).Pushing
          rw [Function.update_self]
          exact trivial
        · show s.callingPendingFunctors = true
          rw [hflag.calling, hpc]
          rfl
    | callback => simp [hpc, LoopPc.beforeSwap] at hswap
    | testing | polling | dispatching | swapping | batch => simp [hpc, LoopPc.isUser] at huser
  · exact covered_push hW ht

theorem Watched.step (h : Watched W s) (hW : Writing W) (hflag : Flagged s)
    (hcond : QueuesWoken W s a) (hstep : Step s a s') : Watched W s' := by
  cases hstep with
  | queueInLoop may => exact watched_push hW hflag may hcond
  | runQueued may other => exact watched_push hW hflag may fun ht => absurd ht other
  | runAtOnce may => exact fun hswap hne => h hswap hne
  | wakeup may =>
      intro hswap hne
      refine (h hswap hne).setCall (fun _ hw => ?_) (fun _ hp => ?_)
      · rw [may.idle] at hw
        exact absurd hw hW.idle
      · rw [may.idle] at hp
        exact hp.elim
  | quit may =>
      intro hswap hne
      refine (h hswap hne).setCall (fun _ hw => ?_) (fun _ hp => ?_)
      · rw [may.idle] at hw
        exact absurd hw hW.idle
      · rw [may.idle] at hp
        exact hp.elim
  | wake call needed =>
      intro hswap hne
      exact (h hswap hne).setCall (fun _ _ => hW.waking _) (fun _ _ _ => trivial)
  | noWake call calling =>
      intro hswap hne
      refine (h hswap hne).setCall (fun hne => absurd rfl hne) (fun _ _ hcalling => ?_)
      rw [calling] at hcalling
      simp at hcalling
  | quitWake call other =>
      intro hswap hne
      refine (h hswap hne).setCall (fun _ hw => ?_) (fun ht => absurd ht other)
      rw [call] at hw
      exact hW.quit hw
  | quitNoWake call =>
      intro hswap hne
      refine (h hswap hne).setCall (fun hne => absurd rfl hne) (fun _ hp => ?_)
      rw [call] at hp
      exact hp.elim
  | writeFor call | write call => exact fun _ _ => Or.inl (Or.inl (eventfdWrite_pos _))
  | poll free pc reported | callback free pc active | callbackEnd free pc
  | setCalling free pc active => exact fun hswap => absurd hswap (by simp [LoopPc.beforeSwap])
  | handleRead free pc active =>
      exact fun hswap => absurd hswap (by simp [pc, LoopPc.beforeSwap])
  | swap free pc => exact fun _ hne => absurd rfl hne
  | loop free pc | leave free pc hquit | enterPoll free pc hquit | runFunctor free pc funcs
  | functorEnd free pc | release free pc =>
      exact fun _ hne => h (by rw [pc]; rfl) hne
  | clearCalling free pc funcs =>
      intro _ hne
      rcases h (by rw [pc]; rfl) hne with hwoken | ⟨hpush, -⟩
      · exact Or.inl hwoken
      · rw [free] at hpush
        exact hpush.elim

theorem watched_of_reachable (hW : Writing W)
    (h : (lts.restrict (QueuesWoken W)).Reachable s) : Watched W s := by
  refine h.induct ?_ ?_
  · rintro s₀ ⟨t, rfl⟩
    exact fun _ hne => absurd rfl hne
  · rintro m b m' hr hm ⟨hcond, hstep⟩
    exact hm.step hW (flagged_of_reachable hr.of_restrict) hcond (step_cases hstep)

/-- In `epoll_wait` only other threads can be on their way to the write. -/
theorem woken_of_polling (hflag : Flagged s) (h : Watched W s) (pc : s.pc = .polling)
    (hpending : s.pendingFunctors ≠ []) : Woken W s := by
  rcases h (by rw [pc]; rfl) hpending with hwoken | ⟨-, hcalling⟩
  · exact hwoken
  · rw [hflag.calling, pc] at hcalling
    simp [LoopPc.inBatch] at hcalling

/-! ### Calls from callbacks and functors -/

/-- The loop's own thread queues from callbacks and functors only. -/
def FromCallbacks (s : EventLoop F) : Action F → Prop
  | .queueInLoop t _ => t = s.threadId → s.pc.outsideCallbacks = false
  | _ => True

instance (s : EventLoop F) (a : Action F) : Decidable (FromCallbacks s a) := by
  cases a <;> unfold FromCallbacks <;> infer_instance

theorem writing_pushing : Writing LoopCall.Pushing where
  idle h := h
  pushed _ := trivial
  waking _ := trivial
  quit h := h.elim

/-- No wakeup is lost: in `epoll_wait` with a functor in the queue, the eventfd is readable
or another thread has pushed and not yet written. -/
theorem no_lost_wakeup (h : (lts.restrict FromCallbacks).Reachable s) (pc : s.pc = .polling)
    (hpending : s.pendingFunctors ≠ []) :
    0 < s.wakeupFd ∨ ∃ t, t ≠ s.threadId ∧ (s.calls t).Pushing := by
  refine woken_of_polling (flagged_of_reachable h.of_restrict) ?_ pc hpending
  refine watched_of_reachable writing_pushing (h.restrict_mono ?_)
  intro m b hb
  cases b with
  | queueInLoop t f =>
      intro ht hout
      rw [hb ht] at hout
      simp at hout
  | _ => trivial

/-- Two functors are in the queue: the first was pushed by the functor that ran last, the
second by thread 2, after the first write and before its own. -/
theorem no_lost_wakeup_nested : ∃ s : EventLoop Nat, s.pc = .polling ∧
    s.pendingFunctors = [⟨1, 20⟩, ⟨2, 30⟩] ∧
    (0 < s.wakeupFd ∨ ∃ t, t ≠ s.threadId ∧ (s.calls t).Pushing) := by
  obtain ⟨s, hr, hpc, hpending⟩ := exists_of_run FromCallbacks
    (fun s a => decide (FromCallbacks s a)) (fun _ _ => of_decide_eq_true)
    (queues 2 10 ++ [Action.loop, .testQuit] ++ woken ++ [Action.runFunctor] ++ queues 1 20 ++
      [Action.queueInLoop 2 30, .functorEnd] ++ drained)
    (fun s : EventLoop Nat => s.pc = .polling ∧ s.pendingFunctors = [⟨1, 20⟩, ⟨2, 30⟩])
    (by decide +kernel)
  exact ⟨s, hpc, hpending, no_lost_wakeup hr hpc (by rw [hpending]; simp)⟩

/-! ### Calls from elsewhere on the loop's thread -/

/-- The loop's thread makes its calls before `loop()` and at the end of a batch only when the
counter is positive already, or another thread is on its way to the write. -/
def QueuesWatched (s : EventLoop F) (a : Action F) : Prop :=
  QueuesWoken (· ≠ .idle) s a

theorem writing_busy : Writing (· ≠ .idle) where
  idle h := h rfl
  pushed _ := by simp
  waking _ := by simp
  quit _ := by simp

/-- The loop waits in `epoll_wait` with a functor in its queue, and nobody is going to wake
it. -/
structure Stranded (s : EventLoop F) : Prop where
  pc : s.pc = .polling
  pending : s.pendingFunctors ≠ []
  counter : s.wakeupFd = 0
  calls : ∀ t, t ≠ s.threadId → s.calls t = .idle

/-- With these calls made only when the loop will be woken anyway, no functor is stranded. -/
theorem not_stranded (h : (lts.restrict QueuesWatched).Reachable s) : ¬ Stranded s := by
  intro hs
  have hwoken := woken_of_polling (flagged_of_reachable h.of_restrict)
    (watched_of_reachable writing_busy h) hs.pc hs.pending
  rcases hwoken with hpos | ⟨t, ht, hbusy⟩
  · have hzero := hs.counter
    omega
  · exact hbusy (hs.calls t ht)

/-- A functor that thread 2 queued before is still to be written for when the loop's thread
queues its own and enters the loop. -/
theorem not_stranded_woken : ∃ s : EventLoop Nat, s.pc = .polling ∧
    s.pendingFunctors = [⟨0, 10⟩, ⟨1, 20⟩] ∧ s.wakeupFd = 0 ∧ ¬ Stranded s := by
  obtain ⟨s, hr, hpc, hpending, hzero⟩ := exists_of_run QueuesWatched
    (fun s a => match a with
      | .queueInLoop t _ => t != s.threadId || (s.threadId != 2 && s.calls 2 != .idle)
      | _ => true)
    (by
      intro s a h
      cases a with
      | queueInLoop t f =>
          intro ht _
          simp only [ht, bne_self_eq_false, Bool.false_or, Bool.and_eq_true, bne_iff_ne] at h
          exact Or.inr ⟨2, Ne.symm h.1, h.2⟩
      | _ => trivial)
    [.queueInLoop 2 10, .queueInLoop 1 20, .test 1, .loop, .testQuit]
    (fun s : EventLoop Nat => s.pc = .polling ∧ s.pendingFunctors = [⟨0, 10⟩, ⟨1, 20⟩] ∧
      s.wakeupFd = 0) (by decide +kernel)
  exact ⟨s, hpc, hpending, hzero, not_stranded hr⟩

/-! ### The condition is exact

Once the counter is zero and no thread is in a call, the loop left to itself comes to
`epoll_wait` without having looked at the queue.
-/

/-- Something is in the queue, and nothing will wake the loop. -/
structure Unwoken (s : EventLoop F) : Prop where
  pending : s.pendingFunctors ≠ []
  counter : s.wakeupFd = 0
  calls : ∀ t, s.calls t = .idle

namespace Unwoken

theorem strands_outside (h : Unwoken s) (pc : s.pc = .outside) :
    ∃ as s', Lts.Path lts s as s' ∧ Stranded s' := by
  have hfree := h.calls s.threadId
  have hloop : lts.step s .loop { s with quit := false, pc := .testing } := by
    show s.next .loop = _
    simp [next, hfree, pc, loopStep]
  have htest : lts.step { s with quit := false, pc := .testing } .testQuit
      { s with quit := false, pc := .polling } := by
    show EventLoop.next _ .testQuit = _
    simp [next, hfree, loopStep]
  exact ⟨_, _, (Lts.Path.single hloop).snoc htest, rfl, h.pending, h.counter,
    fun t _ => h.calls t⟩

theorem strands_testing (h : Unwoken s) (pc : s.pc = .testing) :
    ∃ as s', Lts.Path lts s as s' ∧ Stranded s' := by
  have hfree := h.calls s.threadId
  by_cases hquit : s.quit = true
  · have hleave : lts.step s .testQuit ({ s with pc := .outside }.record .loopReturned) := by
      show s.next .testQuit = _
      simp [next, hfree, pc, loopStep, hquit]
    have hout : Unwoken ({ s with pc := .outside }.record .loopReturned) :=
      ⟨h.pending, h.counter, h.calls⟩
    obtain ⟨as, s', hpath, hstranded⟩ := hout.strands_outside rfl
    exact ⟨_, s', (Lts.Path.single hleave).append hpath, hstranded⟩
  · have hpoll : lts.step s .testQuit { s with pc := .polling } := by
      show s.next .testQuit = _
      simp [next, hfree, pc, loopStep, hquit]
    exact ⟨_, _, .single hpoll, rfl, h.pending, h.counter, fun t _ => h.calls t⟩

theorem strands_releasing (h : Unwoken s) (pc : s.pc = .releasing) :
    ∃ as s', Lts.Path lts s as s' ∧ Stranded s' := by
  have hfree := h.calls s.threadId
  have hrelease : lts.step s .release { s with pc := .testing } := by
    show s.next .release = _
    simp [next, hfree, pc, loopStep]
  have htesting : Unwoken { s with pc := .testing } := ⟨h.pending, h.counter, h.calls⟩
  obtain ⟨as, s', hpath, hstranded⟩ := htesting.strands_testing rfl
  exact ⟨_, s', (Lts.Path.single hrelease).append hpath, hstranded⟩

end Unwoken

/-- After a call at one of these places that nothing else covers, the loop left to itself
strands the functor. -/
theorem strands_of_queueInLoop (h : lts.Reachable s) (may : MayCall s s.threadId)
    (hout : s.pc.outsideCallbacks = true) {f : F}
    (hnot : ¬ QueuesWatched s (.queueInLoop s.threadId f)) :
    ∃ as s', Lts.Path lts s as s' ∧ Stranded s' := by
  have hwoken : ¬ Woken (· ≠ .idle) s := fun hw => hnot fun _ _ => hw
  have hidle : ∀ t, t ≠ s.threadId → s.calls t = .idle := by
    intro t ht
    by_contra hne
    exact hwoken (Or.inr ⟨t, ht, hne⟩)
  have hzero : s.wakeupFd = 0 := by
    by_contra hne
    exact hwoken (Or.inl (Nat.pos_of_ne_zero hne))
  have hcalling : s.callingPendingFunctors = false := by
    rw [(flagged_of_reachable h).calling]
    cases hpc : s.pc <;> first | rfl | simp [hpc, LoopPc.outsideCallbacks] at hout
  have hpush : lts.step s (.queueInLoop s.threadId f) (s.push s.threadId f) := by
    show s.next _ = _
    simp [next, mayCall_iff.mpr may]
  have hcall : (s.push s.threadId f).calls s.threadId = .pushed (pushed s.log).length :=
    Function.update_self _ _ _
  have htest : lts.step (s.push s.threadId f) (.test s.threadId)
      (((s.push s.threadId f).setCall s.threadId .idle).record
        (.returned (pushed s.log).length)) := by
    show EventLoop.next _ _ = _
    simp only [next, hcall, callStep]
    rw [if_neg (by simp [isInLoopThread, hcalling, push, record, EventLoop.setCall])]
  have hunwoken : Unwoken (((s.push s.threadId f).setCall s.threadId .idle).record
      (.returned (pushed s.log).length)) := by
    refine ⟨by simp [record, EventLoop.setCall, push], hzero, ?_⟩
    intro t
    show Function.update (Function.update s.calls s.threadId _) s.threadId .idle t = .idle
    by_cases ht : t = s.threadId
    · rw [ht, Function.update_self]
    · rw [Function.update_of_ne ht, Function.update_of_ne ht]
      exact hidle t ht
  have hstrands : ∃ as s', Lts.Path lts (((s.push s.threadId f).setCall s.threadId .idle).record
      (.returned (pushed s.log).length)) as s' ∧ Stranded s' := by
    cases hpc : s.pc with
    | outside => exact hunwoken.strands_outside hpc
    | releasing => exact hunwoken.strands_releasing hpc
    | testing | polling | dispatching | callback | swapping | batch | functor g =>
        simp [hpc, LoopPc.outsideCallbacks] at hout
  obtain ⟨as, s', hpath, hstranded⟩ := hstrands
  exact ⟨_, s', ((Lts.Path.single hpush).snoc htest).append hpath, hstranded⟩

/-- A functor queued before `loop()` is entered, and one queued by a destructor at the end of
a batch. -/
theorem functor_stranded :
    (∃ s : EventLoop Nat, lts.Reachable s ∧ Stranded s ∧
      s.log = [.pushed 1 ⟨0, 10⟩, .returned 0]) ∧
    ∃ s : EventLoop Nat, lts.Reachable s ∧ Stranded s ∧
      s.log = [.pushed 2 ⟨0, 10⟩, .returned 0, .swapped, .executed 1 ⟨0, 10⟩,
        .pushed 1 ⟨1, 20⟩, .returned 1] := by
  constructor
  · obtain ⟨s, hr, hpc, hpending, hzero, hthread, hlog⟩ := exists_of_run (CalledBy [1])
      (fun s a => decide (CalledBy [1] s a)) (fun _ _ => of_decide_eq_true)
      [.queueInLoop 1 10, .test 1, .loop, .testQuit]
      (fun s : EventLoop Nat => s.pc = .polling ∧ s.pendingFunctors = [⟨0, 10⟩] ∧
        s.wakeupFd = 0 ∧ s.threadId = 1 ∧ s.log = [LoopEvent.pushed 1 ⟨0, 10⟩, .returned 0])
      (by decide +kernel)
    refine ⟨s, hr.of_restrict, ⟨hpc, by simp [hpending], hzero, ?_⟩, hlog⟩
    intro t ht
    exact idle_of_calledBy hr (by simpa [hthread] using ht)
  · obtain ⟨s, hr, hpc, hpending, hzero, hthread, hidle, hlog⟩ := exists_of_run (CalledBy [1, 2])
      (fun s a => decide (CalledBy [1, 2] s a)) (fun _ _ => of_decide_eq_true)
      ([Action.loop, .testQuit] ++ queues 2 10 ++ woken ++ [Action.runFunctor, .functorEnd,
        .clearCalling, .queueInLoop 1 20, .test 1, .release, .testQuit])
      (fun s : EventLoop Nat => s.pc = .polling ∧ s.pendingFunctors = [⟨1, 20⟩] ∧
        s.wakeupFd = 0 ∧ s.threadId = 1 ∧ s.calls 2 = .idle ∧
        s.log = [LoopEvent.pushed 2 ⟨0, 10⟩, .returned 0, .swapped, .executed 1 ⟨0, 10⟩,
          .pushed 1 ⟨1, 20⟩, .returned 1])
      (by decide +kernel)
    refine ⟨s, hr.of_restrict, ⟨hpc, by simp [hpending], hzero, ?_⟩, hlog⟩
    intro t ht
    by_cases h2 : t = 2
    · rw [h2]
      exact hidle
    · exact idle_of_calledBy hr (by simpa [hthread] using ⟨hthread ▸ ht, h2⟩)

end EventLoop

end Muduo
