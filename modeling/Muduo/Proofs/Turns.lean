/-
The turns of `loop()`.

A turn is one `epoll_wait`, the callbacks of what it reports, and one batch of functors.  A
functor runs in the batch of the first swap after its push: the swap takes the whole queue, and
it comes when the batch before it has run.  So functors that queue functors wait for the next
turn, with an `epoll_wait` in between.  A `quit` ends the turn it falls into: nothing but
`loop()` takes its store back, and the test of it stands before `epoll_wait`.
-/
import Mathlib.Data.List.Nodup
import Muduo.Proofs.EventLoopThread
import Muduo.Proofs.Wakeup

namespace Muduo

def LoopEvent.isSwapped {F : Type} : LoopEvent F → Bool
  | .swapped => true
  | _ => false

/-- The functor was pushed, and there have been `n` swaps since. -/
def PushedAgo {F : Type} (n : Nat) (log : List (LoopEvent F)) (q : Queued F) : Prop :=
  ∃ l t since, log = l ++ .pushed t q :: since ∧ since.countP LoopEvent.isSwapped = n

theorem PushedAgo.append {F : Type} {n : Nat} {log : List (LoopEvent F)} {q : Queued F}
    (h : PushedAgo n log q) (es : List (LoopEvent F)) :
    PushedAgo (n + es.countP LoopEvent.isSwapped) (log ++ es) q := by
  obtain ⟨l, t, since, rfl, hcount⟩ := h
  exact ⟨l, t, since ++ es, by simp, by rw [List.countP_append, hcount]⟩

/-- How often `epoll_wait` may still return before the test of `m_quit`. -/
def LoopPc.waits {F : Type} : LoopPc F → Nat
  | .polling => 1
  | _ => 0

namespace EventLoop

variable {F : Type} {s s' : EventLoop F} {a : Action F}

/-! ### The turn of a functor -/

/-- What is in the queue has been pushed since the last swap, what is left of the batch between
the last two, and what has run did so when there had been one swap since its push. -/
structure InTurn (s : EventLoop F) : Prop where
  pending : ∀ q ∈ s.pendingFunctors, PushedAgo 0 s.log q
  batch : ∀ q ∈ s.pc.running ++ s.funcs, PushedAgo 1 s.log q
  executed : Transcript.Justified
    (fun before e => ∀ t q, e = .executed t q → PushedAgo 1 before q) s.log

namespace InTurn

/-- A step that takes no functor out of the queue, and may push some. -/
theorem keep (h : InTurn s) (es : List (LoopEvent F)) (hlog : s'.log = s.log ++ es)
    (hpending : ∀ q ∈ s'.pendingFunctors, q ∈ s.pendingFunctors ∨ PushedAgo 0 s'.log q)
    (hbatch : ∀ q ∈ s'.pc.running ++ s'.funcs, q ∈ s.pc.running ++ s.funcs)
    (hes : ∀ e ∈ es, e.isSwapped = false ∧ ∀ t q, e = .executed t q → q ∈ s.pc.running) :
    InTurn s' := by
  have hcount : es.countP LoopEvent.isSwapped = 0 := by
    rw [List.countP_eq_zero]
    intro e he
    simp [(hes e he).1]
  have happend : ∀ {n q}, PushedAgo n s.log q → PushedAgo n s'.log q := by
    intro n q hq
    have hq := hq.append es
    rwa [hcount, ← hlog] at hq
  refine ⟨?_, ?_, ?_⟩
  · intro q hq
    rcases hpending q hq with hold | hnew
    · exact happend (h.pending q hold)
    · exact hnew
  · intro q hq
    exact happend (h.batch q (hbatch q hq))
  · rw [hlog]
    refine h.executed.append_while ?_
    rintro pre e post heq t q rfl
    have hmem : .executed t q ∈ es := by rw [heq]; simp
    have hrunning := (hes _ hmem).2 t q rfl
    have hq := (h.batch q (List.mem_append_left _ hrunning)).append pre
    have hpre : pre.countP LoopEvent.isSwapped = 0 := by
      rw [List.countP_eq_zero]
      intro e he
      simp [(hes e (by rw [heq]; exact List.mem_append_left _ he)).1]
    rwa [hpre] at hq

/-- A step that moves no functor. -/
theorem aside (h : InTurn s) {es : List (LoopEvent F)} (hlog : s'.log = s.log ++ es)
    (hpending : s'.pendingFunctors = s.pendingFunctors)
    (hbatch : s'.pc.running ++ s'.funcs = s.pc.running ++ s.funcs)
    (hes : ∀ e ∈ es, e.isSwapped = false ∧ ∀ t q, e ≠ .executed t q) : InTurn s' := by
  refine h.keep es hlog ?_ ?_ ?_
  · intro q hq
    rw [hpending] at hq
    exact Or.inl hq
  · rw [hbatch]
    exact fun q hq => hq
  · intro e he
    exact ⟨(hes e he).1, fun t q heq => absurd heq ((hes e he).2 t q)⟩

theorem push (h : InTurn s) (t : Tid) (f : F) : InTurn (s.push t f) := by
  refine h.keep [.pushed t ⟨(pushed s.log).length, f⟩] rfl ?_ (fun q hq => hq) ?_
  · intro q hq
    rcases List.mem_append.mp hq with hold | hnew
    · exact Or.inl hold
    · obtain rfl := List.mem_singleton.mp hnew
      exact Or.inr ⟨s.log, t, [], rfl, rfl⟩
  · simp [LoopEvent.isSwapped]

/-- The swap: what was in the queue is the batch, and there is nothing else in it. -/
theorem swap (h : InTurn s) : InTurn ({ s with
    funcs := s.pendingFunctors
    pendingFunctors := []
    pc := .batch }.record .swapped) := by
  refine ⟨by simp [record], ?_, ?_⟩
  · intro q hq
    exact (h.pending q hq).append [.swapped]
  · exact h.executed.append_singleton (by simp)

theorem step (h : InTurn s) (hstep : Step s a s') : InTurn s' := by
  cases hstep with
  | queueInLoop may | runQueued may other => exact h.push _ _
  | runAtOnce may => exact h.aside rfl rfl rfl (by simp [LoopEvent.isSwapped])
  | wakeup may | wake call needed | quitWake call other | quitNoWake call | write call
  | handleRead free pc active =>
      exact h.aside (List.append_nil _).symm rfl rfl (by simp)
  | quit may | noWake call calling | writeFor call =>
      exact h.aside rfl rfl rfl (by simp [LoopEvent.isSwapped])
  | loop free pc | enterPoll free pc hquit | poll free pc reported | callback free pc active
  | callbackEnd free pc | setCalling free pc active | release free pc =>
      exact h.aside (List.append_nil _).symm rfl (by rw [pc]; rfl) (by simp)
  | leave free pc hquit =>
      exact h.aside rfl rfl (by rw [pc]; rfl) (by simp [LoopEvent.isSwapped])
  | swap free pc => exact h.swap
  | @runFunctor f rest free pc funcs =>
      refine h.aside (List.append_nil _).symm rfl ?_ (by simp)
      rw [pc, funcs]
      rfl
  | @functorEnd f free pc =>
      refine h.keep [.executed s.threadId f] rfl (fun q hq => Or.inl hq) ?_ ?_
      · intro q hq
        exact List.mem_append_right _ hq
      · intro e he
        obtain rfl := List.mem_singleton.mp he
        refine ⟨rfl, ?_⟩
        intro t q heq
        rw [LoopEvent.executed.injEq] at heq
        rw [pc, ← heq.2]
        simp [LoopPc.running]
  | clearCalling free pc funcs =>
      exact h.aside (List.append_nil _).symm rfl (by rw [pc]; rfl) (by simp)

end InTurn

theorem inTurn_of_reachable (h : lts.Reachable s) : InTurn s := by
  refine h.induct ?_ ?_
  · rintro s₀ ⟨t, rfl⟩
    exact ⟨by simp [new], by simp [new, LoopPc.running], Transcript.justified_nil⟩
  · intro m b m' _ hm hstep
    exact hm.step (step_cases hstep)

/-! ### The turns of a run -/

/-- `epoll_wait` has returned since the last swap. -/
def Polled (as : List (Action F)) : Prop :=
  ∃ l active since, as = l ++ .poll active :: since ∧ .swap ∉ since

/-- The way to the swap leads through `epoll_wait`. -/
theorem Step.beforeSwap (h : Step s a s') (hs : s'.pc.beforeSwap = true) :
    (∃ active, a = .poll active) ∨ s.pc.beforeSwap = true ∧ a ≠ .swap := by
  cases h with
  | @poll active free pc reported => exact Or.inl ⟨active, rfl⟩
  | loop free pc | leave free pc hquit | enterPoll free pc hquit | swap free pc
  | runFunctor free pc funcs | functorEnd free pc | clearCalling free pc funcs
  | release free pc => simp [record, LoopPc.beforeSwap] at hs
  | callback free pc active | callbackEnd free pc | setCalling free pc active =>
      exact Or.inr ⟨by rw [pc]; rfl, by simp⟩
  | _ => exact Or.inr ⟨hs, by simp⟩

/-- Until `epoll_wait` has returned, a loop that is past its swap takes nothing out of the
queue. -/
theorem Step.waiting (h : Step s a s') (hpc : s.pc.beforeSwap = false)
    (hno : ∀ active, a ≠ .poll active) :
    s'.pc.beforeSwap = false ∧ ∀ q ∈ s.pendingFunctors, q ∈ s'.pendingFunctors := by
  refine ⟨?_, ?_⟩
  · by_contra hs
    rcases h.beforeSwap (by simpa using hs) with ⟨active, ha⟩ | ⟨hwas, -⟩
    · exact hno active ha
    · rw [hpc] at hwas
      simp at hwas
  · cases h with
    | queueInLoop may | runQueued may other => exact fun q hq => List.mem_append_left _ hq
    | swap free pc =>
        rw [pc] at hpc
        simp [LoopPc.beforeSwap] at hpc
    | _ => exact fun q hq => hq

theorem waiting_path {as : List (Action F)} (h : Lts.Path lts s as s')
    (hpc : s.pc.beforeSwap = false) (hno : ∀ active, .poll active ∉ as) :
    s'.pc.beforeSwap = false ∧ ∀ q ∈ s.pendingFunctors, q ∈ s'.pendingFunctors := by
  induction h with
  | nil => exact ⟨hpc, fun q hq => hq⟩
  | @snoc m m' as a _ hstep ih =>
      obtain ⟨hm, hkept⟩ := ih fun active hmem => hno active (List.mem_append_left _ hmem)
      obtain ⟨hm', hkept'⟩ := (step_cases hstep).waiting hm fun active ha =>
        hno active (List.mem_append_right _ (List.mem_singleton.mpr ha.symm))
      exact ⟨hm', fun q hq => hkept' q (hkept q hq)⟩

/-- What has just been pushed is in the queue. -/
theorem InOrder.mem_pending (h : InOrder s) {l : List (LoopEvent F)} {t : Tid} {q : Queued F}
    (hlog : s.log = l ++ [.pushed t q]) : q ∈ s.pendingFunctors := by
  have hfifo := h.fifo
  rcases h.swapped with ⟨-, hnone⟩ | ⟨before, since, hcut, -, htook⟩
  · rw [hnone, hlog, pushed_append] at hfifo
    rw [show s.pendingFunctors = EventLoop.pushed l ++ [q] from hfifo]
    simp
  · rw [htook, hcut, pushed_append] at hfifo
    rw [show s.pendingFunctors = EventLoop.pushed since from List.append_cancel_left hfifo]
    rcases List.eq_nil_or_concat since with rfl | ⟨front, e, rfl⟩
    · obtain ⟨-, hlast⟩ := List.append_inj' (hcut.symm.trans hlog) rfl
      simp at hlast
    · rw [List.concat_eq_append] at hcut ⊢
      have heq : (before ++ .swapped :: front) ++ [e] = l ++ [.pushed t q] := by
        rw [List.append_assoc]
        exact hcut.symm.trans hlog
      obtain ⟨-, hlast⟩ := List.append_inj' heq rfl
      rw [hlast, pushed_append]
      exact List.mem_append_right _ (List.mem_singleton.mpr rfl)

/-- What is in the queue has not been taken out of it. -/
theorem InOrder.notMem_running (h : InOrder s) {q : Queued F} (hq : q ∈ s.pendingFunctors) :
    q ∉ s.pc.running := by
  have hnodup : (s.taken ++ s.pendingFunctors).Nodup := by
    rw [h.fifo]
    refine List.Nodup.of_map Queued.number ?_
    rw [h.numbers]
    exact List.nodup_range
  intro hrunning
  have htaken : q ∈ s.taken := List.mem_append_left _ (List.mem_append_right _ hrunning)
  exact List.disjoint_of_nodup_append hnodup htaken hq

/-- Each functor from the queue has run in the batch of the first swap after its push; before
each swap `epoll_wait` has returned since the one before; and from a push that is made while a
functor runs, by that functor or another thread, `epoll_wait` returns before the functor that was
pushed runs.  So functors that go on queueing functors keep no channel from being handled. -/
theorem turns {as : List (Action F)} (h : lts.Run as s) :
    (∀ before t q after, s.log = before ++ .executed t q :: after → PushedAgo 1 before q) ∧
      (∀ before after, as = before ++ .swap :: after → Polled before) ∧
      ∀ m bs l t p q, lts.Reachable m → m.pc = .functor p → m.log = l ++ [.pushed t q] →
        Lts.Path lts m bs s → q ∈ s.pc.running → ∃ active, .poll active ∈ bs := by
  refine ⟨?_, ?_, ?_⟩
  · intro before t q after heq
    exact (inTurn_of_reachable ⟨as, h⟩).executed before _ after heq t q rfl
  · have hpolled : (s.pc.beforeSwap = true → Polled as) ∧
        Transcript.Justified (fun before b => b = .swap → Polled before) as := by
      refine h.induct (P := fun as s => (s.pc.beforeSwap = true → Polled as) ∧
        Transcript.Justified (fun before b => b = .swap → Polled before) as) ?_ ?_
      · rintro s₀ ⟨t, rfl⟩
        exact ⟨by simp [new, LoopPc.beforeSwap], Transcript.justified_nil⟩
      · rintro as m b m' - ⟨hbefore, hjust⟩ hstep
        have hcases := step_cases hstep
        refine ⟨?_, hjust.append_singleton ?_⟩
        · intro hs
          rcases hcases.beforeSwap hs with ⟨active, rfl⟩ | ⟨hm, hb⟩
          · exact ⟨as, active, [], rfl, by simp⟩
          · obtain ⟨l, active, since, rfl, hsince⟩ := hbefore hm
            refine ⟨l, active, since ++ [b], by simp, ?_⟩
            simpa [hsince] using fun heq => hb heq.symm
        · rintro rfl
          cases hcases with
          | swap free pc => exact hbefore (by rw [pc]; rfl)
    intro before after heq
    exact hpolled.2 before _ after heq rfl
  · intro m bs l t p q hm hpc hlog hpath hrunning
    by_contra hno
    rw [not_exists] at hno
    have hqueue := (inOrder_of_reachable hm).mem_pending hlog
    have hstill := (waiting_path hpath (by rw [hpc]; rfl) hno).2 q hqueue
    exact (inOrder_of_reachable ⟨as, h⟩).notMem_running hstill hrunning

/-- A functor has queued another one, which runs in the next turn. -/
theorem turns_nested : ∃ s : EventLoop Nat, ∃ before, s.log = before ++ [.executed 1 ⟨1, 20⟩] ∧
    PushedAgo 1 before ⟨1, 20⟩ := by
  obtain ⟨s, ⟨as, hrun⟩, hlog⟩ := exists_of_run (fun _ _ => True) (fun _ _ => true)
    (fun _ _ _ => trivial)
    ([Action.loop, .testQuit] ++ queues 2 10 ++ woken ++ [Action.runFunctor] ++ queues 1 20 ++
      [Action.functorEnd] ++ drained ++ woken ++ [Action.runFunctor, .functorEnd])
    (fun s : EventLoop Nat => s.log.getLast? = some (.executed 1 ⟨1, 20⟩)) (by decide +kernel)
  obtain ⟨before, hbefore⟩ := List.getLast?_eq_some_iff.mp hlog
  exact ⟨s, before, hbefore, (turns hrun.of_restrict).1 before 1 ⟨1, 20⟩ [] hbefore⟩

/-! ### The last turn -/

/-- The call is on its way to the write of `wakeup`. -/
def ToWrite (c : LoopCall) : Prop :=
  c = .quitStored ∨ ∃ n, c = .waking n

/-- A loop that is in `epoll_wait` although it has been told to quit will be woken. -/
def Told (s : EventLoop F) : Prop :=
  s.quit = true → s.pc = .polling → Woken ToWrite s

theorem Told.step (h : Told s) (hstep : Step s a s') : Told s' := by
  have hidle : ¬ ToWrite .idle := by simp [ToWrite]
  intro hq hpc
  cases hstep with
  | queueInLoop may | runQueued may other | wakeup may =>
      refine (h hq hpc).setCall fun _ hw => ?_
      rw [may.idle] at hw
      exact absurd hw hidle
  | runAtOnce may => exact h hq hpc
  | @quit t may =>
      have hne : t ≠ s.threadId := by
        rintro rfl
        have huser := may.user rfl
        have hpc : s.pc = .polling := hpc
        rw [hpc] at huser
        simp [LoopPc.isUser] at huser
      refine Or.inr ⟨t, hne, ?_⟩
      show ToWrite (Function.update s.calls t .quitStored t)
      rw [Function.update_self]
      exact Or.inl rfl
  | wake call needed => exact (h hq hpc).setCall fun _ _ => Or.inr ⟨_, rfl⟩
  | quitWake call other => exact (h hq hpc).setCall fun _ _ => Or.inr ⟨_, rfl⟩
  | noWake call calling | quitNoWake call =>
      exact (h hq hpc).setCall fun hne => absurd rfl hne
  | writeFor call | write call => exact Or.inl (eventfdWrite_pos _)
  | loop free pc => simp at hq
  | enterPoll free pc hquit =>
      have hq : s.quit = true := hq
      rw [hquit] at hq
      simp at hq
  | handleRead free pc active =>
      have hpc : s.pc = .polling := hpc
      rw [pc] at hpc
      simp at hpc
  | leave free pc hquit | poll free pc reported | callback free pc active | callbackEnd free pc
  | setCalling free pc active | swap free pc | runFunctor free pc funcs | functorEnd free pc
  | clearCalling free pc funcs | release free pc => simp [record] at hpc

theorem told_of_reachable (h : lts.Reachable s) : Told s := by
  refine h.induct ?_ ?_
  · rintro s₀ ⟨t, rfl⟩ hq
    simp [new] at hq
  · intro m b m' _ hm hstep
    exact hm.step (step_cases hstep)

def Action.isPoll : Action F → Bool
  | .poll _ => true
  | _ => false

/-- With `m_quit` set the loop does not come to `epoll_wait`. -/
theorem Step.waits (h : Step s a s') (hq : s.quit = true) (ha : a ≠ .loop) :
    [a].countP Action.isPoll + s'.pc.waits ≤ s.pc.waits := by
  cases h with
  | loop free pc => exact absurd rfl ha
  | enterPoll free pc hquit =>
      rw [hq] at hquit
      simp at hquit
  | poll free pc reported =>
      rw [pc]
      simp [Action.isPoll, LoopPc.waits]
  | leave free pc hquit | callback free pc active | callbackEnd free pc
  | setCalling free pc active | swap free pc | runFunctor free pc funcs | functorEnd free pc
  | clearCalling free pc funcs | release free pc => simp [Action.isPoll, LoopPc.waits, record]
  | _ => exact Nat.le_of_eq (Nat.zero_add _)

/-- When `quit` has stored, a loop that is in `epoll_wait` will be woken; and from then on, as
long as `loop()` is not called again, `epoll_wait` returns at most once more, and not at all
if the loop was not in it. -/
theorem quit_ends_turn (h : lts.Reachable s) (hq : s.quit = true) :
    (s.pc = .polling → Woken ToWrite s) ∧
      ∀ bs s', lts.Path s bs s' → (∀ b ∈ bs, b ≠ .loop) →
        bs.countP Action.isPoll + s'.pc.waits ≤ s.pc.waits := by
  refine ⟨told_of_reachable h hq, ?_⟩
  intro bs s' hpath
  have hboth : (∀ b ∈ bs, b ≠ .loop) → s'.quit = true ∧
      bs.countP Action.isPoll + s'.pc.waits ≤ s.pc.waits := by
    induction hpath with
    | nil => exact fun _ => ⟨hq, by simp⟩
    | snoc _ hstep ih =>
        intro hno
        obtain ⟨hquit, hle⟩ := ih fun b hb => hno b (List.mem_append_left _ hb)
        have hb := hno _ (List.mem_append_right _ (List.mem_singleton.mpr rfl))
        have hcases := step_cases hstep
        have hwaits := hcases.waits hquit hb
        refine ⟨hcases.quit_kept hb hquit, ?_⟩
        rw [List.countP_append]
        omega
  exact fun hno => (hboth hno).2

/-- Thread 2 has stored, and has not come to its write. -/
theorem quit_ends_turn_polling : ∃ s : EventLoop Nat, s.pc = .polling ∧ s.wakeupFd = 0 ∧
    Woken ToWrite s := by
  obtain ⟨s, hr, hpc, hfd, hq⟩ := exists_of_run (fun _ _ => True) (fun _ _ => true)
    (fun _ _ _ => trivial) [Action.loop, .testQuit, .quit 2]
    (fun s : EventLoop Nat => s.pc = .polling ∧ s.wakeupFd = 0 ∧ s.quit = true)
    (by decide +kernel)
  exact ⟨s, hpc, hfd, (quit_ends_turn hr.of_restrict hq).1 hpc⟩

end EventLoop

end Muduo
