/-
What has run when `loop()` returns.

`loop()` looks at `m_quit` once in a turn, after the batch.  A call of `quit` that stores
before the swap of a turn is answered at the end of that turn, and by then everything that
was in the queue has run.  One that stores between the swap and the test leaves behind what
has been queued since the swap.  `Prompt` is the invariant: from the swap to the test, with
`m_quit` set, nothing in the queue is due.
-/
import Muduo.Proofs.EventLoop

namespace Muduo

open Transcript

/-- The next thing the loop does with `m_quit` or its queue is to test `m_quit`. -/
def LoopPc.beforeTest {F : Type} : LoopPc F → Bool
  | .testing => true
  | .batch => true
  | .functor _ => true
  | .releasing => true
  | _ => false

namespace EventLoop

variable {F : Type} {s s' : EventLoop F} {a : Action F}

/-! ### The numbers in use -/

/-- The calls that have pushed, and those that have returned, have numbers of pushes. -/
structure Numbered (s : EventLoop F) : Prop where
  returned : ∀ n, .returned n ∈ s.log → n < (pushed s.log).length
  pushed : ∀ t n, s.calls t = .pushed n → n < (EventLoop.pushed s.log).length
  waking : ∀ t n, s.calls t = .waking (some n) → n < (EventLoop.pushed s.log).length

namespace Numbered

/-- A step that moves one call on and adds to the log. -/
theorem advance (h : Numbered s) (t : Tid) (c : LoopCall) (es : List (LoopEvent F))
    (hcalls : s'.calls = Function.update s.calls t c) (hlog : s'.log = s.log ++ es)
    (hreturned : ∀ n, .returned n ∈ es → n < (EventLoop.pushed s.log).length)
    (hpushed : ∀ n, c = .pushed n → n < (EventLoop.pushed s'.log).length)
    (hwaking : ∀ n, c = .waking (some n) → n < (EventLoop.pushed s'.log).length) :
    Numbered s' := by
  have hle : (EventLoop.pushed s.log).length ≤ (EventLoop.pushed s'.log).length := by
    rw [hlog, pushed_append, List.length_append]
    omega
  refine ⟨?_, ?_, ?_⟩
  · intro n hn
    rw [hlog, List.mem_append] at hn
    rcases hn with hn | hn
    · exact Nat.lt_of_lt_of_le (h.returned n hn) hle
    · exact Nat.lt_of_lt_of_le (hreturned n hn) hle
  · intro u n hu
    rw [hcalls] at hu
    by_cases hut : u = t
    · rw [hut, Function.update_self] at hu
      exact hpushed n hu
    · rw [Function.update_of_ne hut] at hu
      exact Nat.lt_of_lt_of_le (h.pushed u n hu) hle
  · intro u n hu
    rw [hcalls] at hu
    by_cases hut : u = t
    · rw [hut, Function.update_self] at hu
      exact hwaking n hu
    · rw [Function.update_of_ne hut] at hu
      exact Nat.lt_of_lt_of_le (h.waking u n hu) hle

/-- A step that moves no call. -/
theorem stay (h : Numbered s) {es : List (LoopEvent F)} (hcalls : s'.calls = s.calls)
    (hlog : s'.log = s.log ++ es) (hes : ∀ n, .returned n ∉ es) : Numbered s' := by
  refine h.advance s.threadId (s.calls s.threadId) es ?_ hlog
    (fun n hn => absurd hn (hes n)) ?_ ?_
  · rw [hcalls, Function.update_eq_self]
  · intro n hn
    rw [hlog, pushed_append, List.length_append]
    have hlt := h.pushed _ n hn
    omega
  · intro n hn
    rw [hlog, pushed_append, List.length_append]
    have hlt := h.waking _ n hn
    omega

theorem push (h : Numbered s) (t : Tid) (f : F) : Numbered (s.push t f) := by
  refine h.advance t (.pushed (EventLoop.pushed s.log).length)
    [.pushed t ⟨(EventLoop.pushed s.log).length, f⟩] rfl rfl (by simp) ?_ (by simp)
  intro n hn
  rw [LoopCall.pushed.injEq] at hn
  show n < (EventLoop.pushed (s.log ++ [.pushed t ⟨(EventLoop.pushed s.log).length, f⟩])).length
  rw [pushed_append, List.length_append, ← hn]
  simp [EventLoop.pushed]

theorem step (h : Numbered s) (hstep : Step s a s') : Numbered s' := by
  have hmore : ∀ {e : LoopEvent F} {n : Nat}, n < (EventLoop.pushed s.log).length →
      n < (EventLoop.pushed (s.log ++ [e])).length := by
    intro e n hn
    rw [pushed_append, List.length_append]
    omega
  cases hstep with
  | queueInLoop may | runQueued may other => exact h.push _ _
  | wakeup may | quitWake call other | quitNoWake call | write call =>
      exact h.advance _ _ [] rfl (List.append_nil _).symm (by simp) (by simp) (by simp)
  | quit may => exact h.advance _ _ [_] rfl rfl (by simp) (by simp) (by simp)
  | @wake t n call needed =>
      refine h.advance _ _ [] rfl (List.append_nil _).symm (by simp) (by simp) ?_
      intro m hm
      rw [LoopCall.waking.injEq, Option.some.injEq] at hm
      rw [← hm]
      exact h.pushed t n call
  | @noWake n call calling =>
      refine h.advance _ _ [_] rfl rfl ?_ (by simp) (by simp)
      intro m hm
      rw [List.mem_singleton, LoopEvent.returned.injEq] at hm
      rw [hm]
      exact h.pushed _ n call
  | @writeFor t n call =>
      refine h.advance _ _ [_] rfl rfl ?_ (by simp) (by simp)
      intro m hm
      rw [List.mem_singleton, LoopEvent.returned.injEq] at hm
      rw [hm]
      exact h.waking t n call
  | runAtOnce may | leave free pc hquit | swap free pc | functorEnd free pc =>
      exact h.stay rfl rfl (by simp)
  | loop free pc | enterPoll free pc hquit | poll free pc reported | handleRead free pc active
  | callback free pc active | callbackEnd free pc | setCalling free pc active
  | runFunctor free pc funcs | clearCalling free pc funcs | release free pc =>
      exact h.stay rfl (List.append_nil _).symm (by simp)

end Numbered

theorem numbered_of_reachable (h : lts.Reachable s) : Numbered s := by
  refine h.induct ?_ ?_
  · rintro s₀ ⟨t, rfl⟩
    refine ⟨?_, ?_, ?_⟩
    · intro n hn
      simp [EventLoop.new] at hn
    · intro t n hn
      simp [EventLoop.new] at hn
    · intro t n hn
      simp [EventLoop.new] at hn
  · intro m b m' _ hm hstep
    exact hm.step (step_cases hstep)

/-! ### Due -/

/-- The functor of this number was queued by a call that returned before a call of `quit`. -/
def Due (log : List (LoopEvent F)) (n : Nat) : Prop :=
  ∃ before t after, log = before ++ .quit t :: after ∧ .returned n ∈ before

theorem Due.returned {log : List (LoopEvent F)} {n : Nat} (h : Due log n) :
    .returned n ∈ log := by
  obtain ⟨before, t, after, rfl, hn⟩ := h
  exact List.mem_append_left _ hn

/-- Only a call of `quit` makes a functor due. -/
theorem due_append {log : List (LoopEvent F)} {e : LoopEvent F} {n : Nat}
    (h : Due (log ++ [e]) n) : Due log n ∨ ((∃ t, e = .quit t) ∧ .returned n ∈ log) := by
  obtain ⟨before, t, after, hlog, hn⟩ := h
  rcases List.eq_nil_or_concat after with rfl | ⟨init, c, rfl⟩
  · obtain ⟨rfl, he⟩ := List.append_inj' hlog rfl
    rw [List.cons.injEq] at he
    exact Or.inr ⟨⟨t, he.1⟩, hn⟩
  · have hlog' : log ++ [e] = (before ++ .quit t :: init) ++ [c] := by
      rw [hlog, List.concat_eq_append]
      simp
    obtain ⟨rfl, -⟩ := List.append_inj' hlog' rfl
    exact Or.inl ⟨before, t, init, rfl, hn⟩

/-- `quit` does not store between the swap and the test of `m_quit` while a functor whose
`queueInLoop` has returned is in the queue. -/
def QuitsInTime (s : EventLoop F) : Action F → Prop
  | .quit _ => s.pc.beforeTest = true →
      ∀ q ∈ s.pendingFunctors, .returned q.number ∉ s.log
  | _ => True

/-- With `m_quit` set, nothing the loop has left in its queue is due. -/
def Prompt (s : EventLoop F) : Prop :=
  s.quit = true → s.pc.beforeTest = true → ∀ q ∈ s.pendingFunctors, ¬ Due s.log q.number

namespace Prompt

/-- A step that adds nothing to the queue and is no call of `quit`. -/
theorem keep (h : Prompt s) {es : List (LoopEvent F)} (hlog : s'.log = s.log ++ es)
    (hes : es = [] ∨ ∃ e, es = [e] ∧ ∀ t, e ≠ .quit t) (hquit : s'.quit = s.quit)
    (hpc : s'.pc.beforeTest = true → s.pc.beforeTest = true)
    (hpending : s'.pendingFunctors = s.pendingFunctors) : Prompt s' := by
  intro hq hp q hmem hdue
  rw [hquit] at hq
  rw [hpending] at hmem
  refine h hq (hpc hp) q hmem ?_
  rw [hlog] at hdue
  rcases hes with rfl | ⟨e, rfl, hne⟩
  · rwa [List.append_nil] at hdue
  · rcases due_append hdue with hdue | ⟨⟨t, ht⟩, -⟩
    · exact hdue
    · exact absurd ht (hne t)

theorem push (h : Prompt s) (hnum : Numbered s) (t : Tid) (f : F) : Prompt (s.push t f) := by
  intro hq hp q hmem hdue
  have hdue : Due (s.log ++ [.pushed t ⟨(pushed s.log).length, f⟩]) q.number := hdue
  have hmem : q ∈ s.pendingFunctors ++ [⟨(pushed s.log).length, f⟩] := hmem
  rcases due_append hdue with hdue | ⟨⟨u, hu⟩, -⟩
  · rcases List.mem_append.mp hmem with hmem | hmem
    · exact h hq hp q hmem hdue
    · -- the number of a new push is of no call that has returned
      rw [List.mem_singleton] at hmem
      have hlt := hnum.returned _ hdue.returned
      rw [hmem] at hlt
      exact Nat.lt_irrefl _ hlt
  · simp at hu

theorem step (h : Prompt s) (hnum : Numbered s) (hcond : QuitsInTime s a)
    (hstep : Step s a s') : Prompt s' := by
  cases hstep with
  | queueInLoop may | runQueued may other => exact h.push hnum _ _
  | @quit t may =>
      intro _ hp q hmem hdue
      have hdue : Due (s.log ++ [.quit t]) q.number := hdue
      refine hcond hp q hmem ?_
      rcases due_append hdue with hdue | ⟨-, hret⟩
      · exact hdue.returned
      · exact hret
  | runAtOnce may | noWake call calling | writeFor call =>
      exact h.keep rfl (Or.inr ⟨_, rfl, by simp⟩) rfl id rfl
  | wakeup may | wake call needed | quitWake call other | quitNoWake call | write call
  | handleRead free pc active =>
      exact h.keep (List.append_nil _).symm (Or.inl rfl) rfl id rfl
  | loop free pc =>
      intro hq
      exact absurd hq Bool.false_ne_true
  | leave free pc hquit | enterPoll free pc hquit | poll free pc reported
  | callback free pc active | callbackEnd free pc | setCalling free pc active =>
      intro _ hp
      exact absurd hp Bool.false_ne_true
  | swap free pc =>
      intro _ _ q hmem
      exact absurd hmem List.not_mem_nil
  | functorEnd free pc =>
      exact h.keep rfl (Or.inr ⟨_, rfl, by simp⟩) rfl (fun _ => by rw [pc]; rfl) rfl
  | runFunctor free pc funcs | clearCalling free pc funcs | release free pc =>
      exact h.keep (List.append_nil _).symm (Or.inl rfl) rfl (fun _ => by rw [pc]; rfl) rfl

end Prompt

/-! ### The return of `loop()` -/

/-- When `loop()` returns, what is due has run. -/
def ReturnsDone (before : List (LoopEvent F)) (e : LoopEvent F) : Prop :=
  e = .loopReturned → ∀ n, Due before n → ∃ t q, .executed t q ∈ before ∧ q.number = n

/-- At the test of `m_quit`, what has been pushed has run or is in the queue. -/
theorem executed_or_pending (hord : InOrder s) (pc : s.pc = .testing) {n : Nat}
    (hn : n < (pushed s.log).length) :
    (∃ t q, .executed t q ∈ s.log ∧ q.number = n) ∨
      ∃ q ∈ s.pendingFunctors, q.number = n := by
  have hfuncs : s.funcs = [] := by
    by_contra hne
    rcases hord.funcs hne with hb | ⟨f, hf⟩
    · simp [pc] at hb
    · simp [pc] at hf
  have hmem : n ∈ (pushed s.log).map Queued.number := by
    rw [hord.numbers]
    exact List.mem_range.mpr hn
  obtain ⟨q, hq, hnumber⟩ := List.mem_map.mp hmem
  rw [← hord.fifo, taken, pc, hfuncs, List.append_nil] at hq
  rcases List.mem_append.mp hq with hq | hq
  · rw [LoopPc.running, List.append_nil, mem_executed] at hq
    · obtain ⟨t, ht⟩ := hq
      exact Or.inl ⟨t, q, ht, hnumber⟩
    · simp
  · exact Or.inr ⟨q, hq, hnumber⟩

theorem returnsDone_step (hord : InOrder s) (hnum : Numbered s) (hprompt : Prompt s)
    (h : Justified ReturnsDone s.log) (hstep : Step s a s') :
    Justified ReturnsDone s'.log := by
  have hplain : ∀ {e : LoopEvent F}, e ≠ .loopReturned →
      Justified ReturnsDone (s.log ++ [e]) :=
    fun hne => h.append_singleton fun he => absurd he hne
  cases hstep with
  | leave free pc hquit =>
      refine h.append_singleton ?_
      intro _ n hdue
      rcases executed_or_pending hord pc (hnum.returned n hdue.returned) with hran | ⟨q, hq, hqn⟩
      · exact hran
      · rw [← hqn] at hdue
        exact absurd hdue (hprompt hquit (by rw [pc]; rfl) q hq)
  | queueInLoop may | runQueued may other | runAtOnce may | quit may | noWake call calling
  | writeFor call | swap free pc | functorEnd free pc => exact hplain (by simp)
  | _ => exact h

/-- When every `quit` comes in time, each functor whose `queueInLoop` returned before a call
of `quit` has run by the time `loop()` returns. -/
theorem executed_before_return (h : (lts.restrict QuitsInTime).Reachable s)
    {before between after : List (LoopEvent F)} {t : Tid} {n : Nat}
    (hlog : s.log = before ++ .quit t :: (between ++ .loopReturned :: after))
    (hn : .returned n ∈ before) :
    ∃ u q, .executed u q ∈ before ++ .quit t :: between ∧ q.number = n := by
  have hinv : Prompt s ∧ Justified ReturnsDone s.log := by
    refine h.induct (P := fun s => Prompt s ∧ Justified ReturnsDone s.log) ?_ ?_
    · rintro s₀ ⟨u, rfl⟩
      refine ⟨?_, justified_nil⟩
      intro hq
      exact absurd hq Bool.false_ne_true
    · rintro m b m' hr ⟨hprompt, hdone⟩ ⟨hcond, hstep⟩
      have hnum := numbered_of_reachable hr.of_restrict
      have hord := inOrder_of_reachable hr.of_restrict
      exact ⟨hprompt.step hnum hcond (step_cases hstep),
        returnsDone_step hord hnum hprompt hdone (step_cases hstep)⟩
  refine hinv.2 (before ++ .quit t :: between) .loopReturned after ?_ rfl n ?_
  · rw [hlog, List.append_assoc, List.cons_append]
  · exact ⟨before, t, between, rfl, hn⟩

/-- `QuitsInTime`, of a loop whose queue may hold anything. -/
def quitsInTime (s : EventLoop Nat) : Action Nat → Bool
  | .quit _ => !s.pc.beforeTest
  | _ => true

theorem quitsInTime_sound (s : EventLoop Nat) (a : Action Nat) (h : quitsInTime s a = true) :
    QuitsInTime s a := by
  cases a with
  | quit t =>
    intro hp
    unfold quitsInTime at h
    rw [hp] at h
    simp at h
  | _ => trivial

/-- Thread 2 queues a functor and quits the loop while it is in `epoll_wait`. -/
theorem executed_before_return_polling : ∃ s : EventLoop Nat,
    s.log = [.pushed 2 ⟨0, 10⟩, .returned 0, .quit 2, .swapped, .executed 1 ⟨0, 10⟩,
      .loopReturned] ∧
    ∃ (u : Tid) (q : Queued Nat), .executed u q ∈ [LoopEvent.pushed 2 ⟨0, 10⟩, .returned 0] ++
      .quit 2 :: [.swapped, .executed 1 ⟨0, 10⟩] ∧ q.number = 0 := by
  obtain ⟨s, hr, hlog⟩ := exists_of_run QuitsInTime quitsInTime quitsInTime_sound
    ([Action.loop, .testQuit] ++ queues 2 10 ++ [Action.quit 2, .test 2, .write 2] ++ woken ++
      [Action.runFunctor, .functorEnd] ++ drained)
    (fun s : EventLoop Nat => s.log = [LoopEvent.pushed 2 ⟨0, 10⟩, .returned 0, .quit 2, .swapped,
      .executed 1 ⟨0, 10⟩, .loopReturned]) (by decide +kernel)
  have hcut : s.log = [.pushed 2 ⟨0, 10⟩, .returned 0] ++
      .quit 2 :: ([.swapped, .executed 1 ⟨0, 10⟩] ++ .loopReturned :: []) := hlog
  exact ⟨s, hlog, executed_before_return hr hcut (by simp)⟩

/-- Thread 2 queues a functor and then quits the loop, both while the loop runs a batch: the
functor is left behind. -/
theorem functor_left_behind : ∃ s : EventLoop Nat, lts.Reachable s ∧
    s.log = [.pushed 2 ⟨0, 10⟩, .returned 0, .swapped, .pushed 2 ⟨1, 20⟩, .returned 1] ++
      .quit 2 :: ([.executed 1 ⟨0, 10⟩] ++ .loopReturned :: []) ∧
    s.pendingFunctors = [⟨1, 20⟩] ∧ ∀ u q, .executed u q ∈ s.log → q.number ≠ 1 := by
  obtain ⟨s, hr, hlog, hpending⟩ := exists_of_run (fun _ _ => True) (fun _ _ => true)
    (fun _ _ _ => trivial)
    ([Action.loop, .testQuit] ++ queues 2 10 ++ woken ++ [Action.runFunctor] ++ queues 2 20 ++
      [Action.quit 2, .test 2, .write 2, .functorEnd] ++ drained)
    (fun s : EventLoop Nat => s.log = [LoopEvent.pushed 2 ⟨0, 10⟩, .returned 0, .swapped,
      .pushed 2 ⟨1, 20⟩, .returned 1] ++ LoopEvent.quit 2 :: ([LoopEvent.executed 1 ⟨0, 10⟩] ++
        LoopEvent.loopReturned :: []) ∧ s.pendingFunctors = [⟨1, 20⟩]) (by decide +kernel)
  refine ⟨s, hr.of_restrict, hlog, hpending, ?_⟩
  intro u q hq
  have hone : q = ⟨0, 10⟩ := by
    rw [hlog] at hq
    simp at hq
    exact hq.2
  rw [hone]
  decide

end EventLoop

end Muduo
