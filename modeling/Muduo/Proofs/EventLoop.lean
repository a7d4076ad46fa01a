/-
What one step of a loop does, and that the queue is first in, first out.

`Step` sorts the steps: one case for each thing that can happen, with the guards it has
passed and the state it leaves.  Every invariant of a loop is proved by cases on it.  The
first one is the order of the functors: what has run, what is running, what is left of the
batch and what is in the queue are together the pushes, in the order of the mutex.
-/
import Muduo.Lib.Transcript
import Muduo.EventLoop

namespace Muduo

namespace EventLoop

variable {F : Type} {s s' : EventLoop F} {a : Action F}

/-- `mayCall`, taken apart. -/
structure MayCall (s : EventLoop F) (t : Tid) : Prop where
  idle : s.calls t = .idle
  user : t = s.threadId → s.pc.isUser = true

/-- The steps of a loop. -/
inductive Step (s : EventLoop F) : Action F → EventLoop F → Prop
  | queueInLoop {t : Tid} {f : F} (may : MayCall s t) : Step s (.queueInLoop t f) (s.push t f)
  | runQueued {t : Tid} {f : F} (may : MayCall s t) (other : t ≠ s.threadId) :
      Step s (.runInLoop t f) (s.push t f)
  | runAtOnce {f : F} (may : MayCall s s.threadId) :
      Step s (.runInLoop s.threadId f) (s.record (.ranAtOnce s.threadId f))
  | wakeup {t : Tid} (may : MayCall s t) : Step s (.wakeup t) (s.setCall t (.waking none))
  | quit {t : Tid} (may : MayCall s t) :
      Step s (.quit t) (({ s with quit := true }.setCall t .quitStored).record (.quit t))
  | wake {t : Tid} {n : Nat} (call : s.calls t = .pushed n)
      (needed : t ≠ s.threadId ∨ s.callingPendingFunctors = true) :
      Step s (.test t) (s.setCall t (.waking (some n)))
  | noWake {n : Nat} (call : s.calls s.threadId = .pushed n)
      (calling : s.callingPendingFunctors = false) :
      Step s (.test s.threadId) ((s.setCall s.threadId .idle).record (.returned n))
  | quitWake {t : Tid} (call : s.calls t = .quitStored) (other : t ≠ s.threadId) :
      Step s (.test t) (s.setCall t (.waking none))
  | quitNoWake (call : s.calls s.threadId = .quitStored) :
      Step s (.test s.threadId) (s.setCall s.threadId .idle)
  | writeFor {t : Tid} {n : Nat} (call : s.calls t = .waking (some n)) :
      Step s (.write t)
        (({ s with wakeupFd := eventfdWrite s.wakeupFd }.setCall t .idle).record (.returned n))
  | write {t : Tid} (call : s.calls t = .waking none) :
      Step s (.write t) ({ s with wakeupFd := eventfdWrite s.wakeupFd }.setCall t .idle)
  | loop (free : s.calls s.threadId = .idle) (pc : s.pc = .outside) :
      Step s .loop { s with quit := false, pc := .testing }
  | leave (free : s.calls s.threadId = .idle) (pc : s.pc = .testing) (hquit : s.quit = true) :
      Step s .testQuit ({ s with pc := .outside }.record .loopReturned)
  | enterPoll (free : s.calls s.threadId = .idle) (pc : s.pc = .testing)
      (hquit : s.quit = false) : Step s .testQuit { s with pc := .polling }
  | poll {active : List ActiveChannel} (free : s.calls s.threadId = .idle)
      (pc : s.pc = .polling) (reported : .wakeup ∈ active → 0 < s.wakeupFd) :
      Step s (.poll active) { s with activeChannels := active, pc := .dispatching }
  | handleRead {rest : List ActiveChannel} (free : s.calls s.threadId = .idle)
      (pc : s.pc = .dispatching) (active : s.activeChannels = .wakeup :: rest) :
      Step s .handleEvent { s with activeChannels := rest, wakeupFd := 0 }
  | callback {rest : List ActiveChannel} (free : s.calls s.threadId = .idle)
      (pc : s.pc = .dispatching) (active : s.activeChannels = .other :: rest) :
      Step s .handleEvent { s with activeChannels := rest, pc := .callback }
  | callbackEnd (free : s.calls s.threadId = .idle) (pc : s.pc = .callback) :
      Step s .callbackEnd { s with pc := .dispatching }
  | setCalling (free : s.calls s.threadId = .idle) (pc : s.pc = .dispatching)
      (active : s.activeChannels = []) :
      Step s .setCalling { s with callingPendingFunctors := true, pc := .swapping }
  | swap (free : s.calls s.threadId = .idle) (pc : s.pc = .swapping) :
      Step s .swap ({ s with
        funcs := s.pendingFunctors
        pendingFunctors := []
        pc := .batch }.record .swapped)
  | runFunctor {f : Queued F} {rest : List (Queued F)} (free : s.calls s.threadId = .idle)
      (pc : s.pc = .batch) (funcs : s.funcs = f :: rest) :
      Step s .runFunctor { s with funcs := rest, pc := .functor f }
  | functorEnd {f : Queued F} (free : s.calls s.threadId = .idle) (pc : s.pc = .functor f) :
      Step s .functorEnd ({ s with pc := .batch }.record (.executed s.threadId f))
  | clearCalling (free : s.calls s.threadId = .idle) (pc : s.pc = .batch)
      (funcs : s.funcs = []) :
      Step s .clearCalling { s with callingPendingFunctors := false, pc := .releasing }
  | release (free : s.calls s.threadId = .idle) (pc : s.pc = .releasing) :
      Step s .release { s with pc := .testing }

/-! ### Sorting the steps -/

theorem mayCall_iff {t : Tid} : s.mayCall t = true ↔ MayCall s t := by
  unfold mayCall
  rw [Bool.and_eq_true, decide_eq_true_eq, Bool.or_eq_true, bne_iff_ne, ne_eq]
  constructor
  · intro h
    exact ⟨h.1, fun ht => h.2.resolve_left (not_not_intro ht)⟩
  · intro h
    refine ⟨h.idle, ?_⟩
    by_cases ht : t = s.threadId
    · exact Or.inr (h.user ht)
    · exact Or.inl ht

theorem test_step {t : Tid} (h : s.callStep t (.test t) (s.calls t) = some s') :
    Step s (.test t) s' := by
  cases hcall : s.calls t with
  | pushed n =>
      simp only [callStep, hcall] at h
      by_cases hwake : t ≠ s.threadId ∨ s.callingPendingFunctors = true
      · rw [if_pos (by simpa [isInLoopThread] using hwake), Option.some.injEq] at h
        rw [← h]
        exact .wake hcall hwake
      · rw [if_neg (by simpa [isInLoopThread] using hwake), Option.some.injEq] at h
        have ht : t = s.threadId := by
          by_contra hne
          exact hwake (Or.inl hne)
        subst ht
        rw [← h]
        exact .noWake hcall (by simpa using hwake)
  | quitStored =>
      simp only [callStep, hcall] at h
      by_cases ht : t = s.threadId
      · subst ht
        rw [if_neg (by simp [isInLoopThread]), Option.some.injEq] at h
        rw [← h]
        exact .quitNoWake hcall
      · rw [if_pos (by simpa [isInLoopThread] using ht), Option.some.injEq] at h
        rw [← h]
        exact .quitWake hcall ht
  | idle | waking number => simp [callStep, hcall] at h

theorem write_step {t : Tid} (h : s.callStep t (.write t) (s.calls t) = some s') :
    Step s (.write t) s' := by
  cases hcall : s.calls t with
  | waking number =>
      cases number with
      | none =>
          simp only [callStep, hcall, Option.some.injEq] at h
          rw [← h]
          exact .write hcall
      | some n =>
          simp only [callStep, hcall, Option.some.injEq] at h
          rw [← h]
          exact .writeFor hcall
  | idle | pushed n | quitStored => simp [callStep, hcall] at h

theorem testQuit_step (free : s.calls s.threadId = .idle) (pc : s.pc = .testing)
    (h : s.loopStep .testQuit .testing = some s') : Step s .testQuit s' := by
  simp only [loopStep] at h
  by_cases hq : s.quit = true
  · rw [if_pos hq, Option.some.injEq] at h
    rw [← h]
    exact .leave free pc hq
  · rw [if_neg hq, Option.some.injEq] at h
    rw [← h]
    exact .enterPoll free pc (by simpa using hq)

theorem poll_step {active : List ActiveChannel} (free : s.calls s.threadId = .idle)
    (pc : s.pc = .polling) (h : s.loopStep (.poll active) .polling = some s') :
    Step s (.poll active) s' := by
  simp only [loopStep] at h
  by_cases hrep : .wakeup ∈ active → 0 < s.wakeupFd
  · rw [if_pos hrep, Option.some.injEq] at h
    rw [← h]
    exact .poll free pc hrep
  · rw [if_neg hrep] at h
    simp at h

theorem handleEvent_step (free : s.calls s.threadId = .idle) (pc : s.pc = .dispatching)
    (h : s.loopStep .handleEvent .dispatching = some s') : Step s .handleEvent s' := by
  cases hactive : s.activeChannels with
  | nil => simp [loopStep, hactive] at h
  | cons c rest =>
      cases c with
      | wakeup =>
          simp only [loopStep, hactive, Option.some.injEq] at h
          rw [← h]
          exact .handleRead free pc hactive
      | other =>
          simp only [loopStep, hactive, Option.some.injEq] at h
          rw [← h]
          exact .callback free pc hactive

/-- One step of `loop()`. -/
theorem loop_step (free : s.calls s.threadId = .idle) (h : s.loopStep a s.pc = some s') :
    Step s a s' := by
  cases hpc : s.pc with
  | outside =>
      rw [hpc] at h
      cases a with
      | loop =>
          simp only [loopStep, Option.some.injEq] at h
          rw [← h]
          exact .loop free hpc
      | _ => simp [loopStep] at h
  | testing =>
      rw [hpc] at h
      cases a with
      | testQuit => exact testQuit_step free hpc h
      | _ => simp [loopStep] at h
  | polling =>
      rw [hpc] at h
      cases a with
      | poll active => exact poll_step free hpc h
      | _ => simp [loopStep] at h
  | dispatching =>
      rw [hpc] at h
      cases a with
      | handleEvent => exact handleEvent_step free hpc h
      | setCalling =>
          cases hactive : s.activeChannels with
          | nil =>
              simp only [loopStep, hactive, Option.some.injEq] at h
              rw [← h]
              simpa only [hactive] using Step.setCalling free hpc hactive
          | cons c rest => simp [loopStep, hactive] at h
      | _ => simp [loopStep] at h
  | callback =>
      rw [hpc] at h
      cases a with
      | callbackEnd =>
          simp only [loopStep, Option.some.injEq] at h
          rw [← h]
          exact .callbackEnd free hpc
      | _ => simp [loopStep] at h
  | swapping =>
      rw [hpc] at h
      cases a with
      | swap =>
          simp only [loopStep, Option.some.injEq] at h
          rw [← h]
          exact .swap free hpc
      | _ => simp [loopStep] at h
  | batch =>
      rw [hpc] at h
      cases hfuncs : s.funcs with
      | nil =>
          cases a with
          | clearCalling =>
              simp only [loopStep, hfuncs, Option.some.injEq] at h
              rw [← h]
              simpa only [hfuncs] using Step.clearCalling free hpc hfuncs
          | _ => simp [loopStep, hfuncs] at h
      | cons f rest =>
          cases a with
          | runFunctor =>
              simp only [loopStep, hfuncs, Option.some.injEq] at h
              rw [← h]
              exact .runFunctor free hpc hfuncs
          | _ => simp [loopStep, hfuncs] at h
  | functor f =>
      rw [hpc] at h
      cases a with
      | functorEnd =>
          simp only [loopStep, Option.some.injEq] at h
          rw [← h]
          exact .functorEnd free hpc
      | _ => simp [loopStep] at h
  | releasing =>
      rw [hpc] at h
      cases a with
      | release =>
          simp only [loopStep, Option.some.injEq] at h
          rw [← h]
          exact .release free hpc
      | _ => simp [loopStep] at h

theorem call_step {t : Tid} {b : Action F} {m : EventLoop F}
    (h : (if s.mayCall t then some m else none) = some s')
    (hstep : MayCall s t → Step s b m) : Step s b s' := by
  by_cases hmay : s.mayCall t = true
  · rw [if_pos hmay, Option.some.injEq] at h
    rw [← h]
    exact hstep (mayCall_iff.mp hmay)
  · rw [if_neg hmay] at h
    simp at h

theorem runInLoop_step {t : Tid} {f : F} (h : s.next (.runInLoop t f) = some s') :
    Step s (.runInLoop t f) s' := by
  simp only [next] at h
  by_cases hmay : s.mayCall t = true
  · rw [if_pos hmay] at h
    by_cases ht : t = s.threadId
    · subst ht
      rw [if_pos (by simp [isInLoopThread]), Option.some.injEq] at h
      rw [← h]
      exact .runAtOnce (mayCall_iff.mp hmay)
    · rw [if_neg (by simpa [isInLoopThread] using ht), Option.some.injEq] at h
      rw [← h]
      exact .runQueued (mayCall_iff.mp hmay) ht
  · rw [if_neg hmay] at h
    simp at h

theorem step_cases (h : lts.step s a s') : Step s a s' := by
  have h : s.next a = some s' := h
  cases a with
  | queueInLoop t f => exact call_step h .queueInLoop
  | runInLoop t f => exact runInLoop_step h
  | wakeup t => exact call_step h .wakeup
  | quit t => exact call_step h .quit
  | test t => exact test_step h
  | write t => exact write_step h
  | loop | testQuit | poll active | handleEvent | callbackEnd | setCalling | swap | runFunctor
  | functorEnd | clearCalling | release =>
      unfold next at h
      by_cases hfree : s.calls s.threadId = .idle
      · exact loop_step hfree (by simpa only [hfree, if_true] using h)
      · simp [hfree] at h

/-! ### The log -/

section Log

variable {l₁ l₂ : List (LoopEvent F)}

@[simp] theorem pushed_append : pushed (l₁ ++ l₂) = pushed l₁ ++ pushed l₂ :=
  List.filterMap_append

@[simp] theorem executed_append : executed (l₁ ++ l₂) = executed l₁ ++ executed l₂ :=
  List.filterMap_append

theorem mem_executed {q : Queued F} :
    q ∈ executed l₁ ↔ ∃ t, LoopEvent.executed t q ∈ l₁ := by
  unfold executed
  rw [List.mem_filterMap]
  constructor
  · rintro ⟨e, he, hq⟩
    cases e with
    | executed t f =>
        rw [Option.some.injEq] at hq
        exact ⟨t, by rw [← hq]; exact he⟩
    | _ => simp at hq
  · rintro ⟨t, ht⟩
    exact ⟨_, ht, rfl⟩

/-- An entry that is about no functor. -/
def quiet : LoopEvent F → Bool
  | .returned _ => true
  | .quit _ => true
  | .loopReturned => true
  | _ => false

theorem pushed_of_quiet (h : ∀ e ∈ l₁, quiet e = true) : pushed l₁ = [] := by
  unfold pushed
  rw [List.filterMap_eq_nil_iff]
  intro e he
  have hq := h e he
  cases e with
  | pushed t f => simp [quiet] at hq
  | _ => rfl

theorem executed_of_quiet (h : ∀ e ∈ l₁, quiet e = true) : executed l₁ = [] := by
  unfold executed
  rw [List.filterMap_eq_nil_iff]
  intro e he
  have hq := h e he
  cases e with
  | executed t f => simp [quiet] at hq
  | _ => rfl

end Log

/-! ### First in, first out -/

/-- What has been taken out of the queue: what has run, what is running, and what is left of
the batch. -/
def taken (s : EventLoop F) : List (Queued F) :=
  executed s.log ++ s.pc.running ++ s.funcs

structure InOrder (s : EventLoop F) : Prop where
  fifo : s.taken ++ s.pendingFunctors = pushed s.log
  numbers : (pushed s.log).map Queued.number = List.range (pushed s.log).length
  funcs : s.funcs ≠ [] → s.pc = .batch ∨ ∃ f, s.pc = .functor f
  swapped : (.swapped ∉ s.log ∧ s.taken = []) ∨ ∃ before since,
    s.log = before ++ .swapped :: since ∧ .swapped ∉ since ∧ s.taken = pushed before
  executed : ∀ t f, .executed t f ∈ s.log → t = s.threadId
  ranAtOnce : ∀ t f, .ranAtOnce t f ∈ s.log → t = s.threadId

namespace InOrder

theorem new (t : Tid) : InOrder (EventLoop.new t : EventLoop F) where
  fifo := rfl
  numbers := rfl
  funcs h := absurd rfl h
  swapped := Or.inl ⟨by simp [EventLoop.new], rfl⟩
  executed t f h := by simp [EventLoop.new] at h
  ranAtOnce t f h := by simp [EventLoop.new] at h

/-- A step that takes nothing out of the queue, and may push one functor. -/
theorem keep (h : InOrder s) (es : List (LoopEvent F)) (hlog : s'.log = s.log ++ es)
    (hthread : s'.threadId = s.threadId) (htaken : s'.taken = s.taken)
    (hpending : s'.pendingFunctors = s.pendingFunctors ++ pushed es)
    (hfuncs : s'.funcs ≠ [] → s'.pc = .batch ∨ ∃ f, s'.pc = .functor f)
    (hes : ∀ e ∈ es, e ≠ .swapped ∧ (∀ t f, e = .executed t f → t = s.threadId) ∧
      ∀ t f, e = .ranAtOnce t f → t = s.threadId)
    (hnumbers : pushed es = [] ∨
      ∃ q, pushed es = [q] ∧ q.number = (pushed s.log).length) : InOrder s' := by
  have hnot : .swapped ∉ es := fun hmem => (hes _ hmem).1 rfl
  refine ⟨?_, ?_, hfuncs, ?_, ?_, ?_⟩
  · rw [htaken, hpending, hlog, pushed_append, ← List.append_assoc, h.fifo]
  · rw [hlog, pushed_append]
    rcases hnumbers with hnil | ⟨q, hq, hnumber⟩
    · rw [hnil, List.append_nil]
      exact h.numbers
    · rw [hq, List.map_append, h.numbers, List.length_append, List.length_singleton,
        List.range_succ, List.map_singleton, hnumber]
  · rcases h.swapped with ⟨hno, hnil⟩ | ⟨before, since, hcut, hsince, htook⟩
    · refine Or.inl ⟨?_, by rw [htaken, hnil]⟩
      rw [hlog, List.mem_append, not_or]
      exact ⟨hno, hnot⟩
    · refine Or.inr ⟨before, since ++ es, ?_, ?_, by rw [htaken, htook]⟩
      · rw [hlog, hcut, List.append_assoc, List.cons_append]
      · rw [List.mem_append, not_or]
        exact ⟨hsince, hnot⟩
  · intro t f hmem
    rw [hlog, List.mem_append] at hmem
    rw [hthread]
    rcases hmem with hmem | hmem
    · exact h.executed t f hmem
    · exact (hes _ hmem).2.1 t f rfl
  · intro t f hmem
    rw [hlog, List.mem_append] at hmem
    rw [hthread]
    rcases hmem with hmem | hmem
    · exact h.ranAtOnce t f hmem
    · exact (hes _ hmem).2.2 t f rfl

/-- A step that is about no functor, or begins one. -/
theorem aside (h : InOrder s) {es : List (LoopEvent F)} (hlog : s'.log = s.log ++ es)
    (hthread : s'.threadId = s.threadId)
    (hrest : s'.pc.running ++ s'.funcs = s.pc.running ++ s.funcs)
    (hpending : s'.pendingFunctors = s.pendingFunctors)
    (hfuncs : s'.funcs ≠ [] → s'.pc = .batch ∨ ∃ f, s'.pc = .functor f)
    (hes : ∀ e ∈ es, quiet e = true) : InOrder s' := by
  have hpushed : pushed es = [] := pushed_of_quiet hes
  refine h.keep es hlog hthread ?_ ?_ hfuncs ?_ (Or.inl hpushed)
  · rw [taken, taken, hlog, executed_append, executed_of_quiet hes, List.append_nil,
      List.append_assoc, hrest, List.append_assoc]
  · rw [hpushed, List.append_nil, hpending]
  · intro e he
    have hq := hes e he
    cases e with
    | returned n | quit t | loopReturned => simp
    | pushed t f | ranAtOnce t f | swapped | executed t f => simp [quiet] at hq

theorem push (h : InOrder s) (t : Tid) (f : F) : InOrder (s.push t f) := by
  have htaken : (s.push t f).taken = s.taken := by
    show EventLoop.executed (s.log ++ [.pushed t ⟨(pushed s.log).length, f⟩]) ++
      s.pc.running ++ s.funcs = s.taken
    rw [executed_append]
    simp [taken, EventLoop.executed]
  refine h.keep [.pushed t ⟨(pushed s.log).length, f⟩] rfl rfl htaken rfl h.funcs ?_
        (Or.inr ⟨_, rfl, rfl⟩)
  simp

/-- The swap takes everything that has been pushed. -/
theorem swap (h : InOrder s) (pc : s.pc = .swapping) :
    InOrder ({ s with
      funcs := s.pendingFunctors
      pendingFunctors := []
      pc := .batch }.record .swapped) := by
  have hfuncs : s.funcs = [] := by
    by_contra hne
    rcases h.funcs hne with hb | ⟨f, hf⟩
    · simp [pc] at hb
    · simp [pc] at hf
  have hall : EventLoop.executed s.log ++ s.pendingFunctors = pushed s.log := by
    have hfifo := h.fifo
    rw [taken, pc, hfuncs, List.append_nil] at hfifo
    simpa only [LoopPc.running, List.append_nil] using hfifo
  have hlog : pushed (s.log ++ [.swapped]) = pushed s.log := by
    rw [pushed_append]
    exact List.append_nil _
  have hexec : EventLoop.executed (s.log ++ [.swapped]) = EventLoop.executed s.log := by
    rw [executed_append]
    exact List.append_nil _
  refine ⟨?_, ?_, fun _ => Or.inl rfl, Or.inr ⟨s.log, [], rfl, by simp, ?_⟩, ?_, ?_⟩
  · show EventLoop.executed (s.log ++ [.swapped]) ++ [] ++ s.pendingFunctors ++ [] = _
    rw [hexec, List.append_nil, List.append_nil, hall]
    exact hlog.symm
  · show (pushed (s.log ++ [.swapped])).map _ = List.range (pushed (s.log ++ [.swapped])).length
    rw [hlog]
    exact h.numbers
  · show EventLoop.executed (s.log ++ [.swapped]) ++ [] ++ s.pendingFunctors = _
    rw [hexec, List.append_nil, hall]
  · intro t f hmem
    exact h.executed t f (by simpa [record] using hmem)
  · intro t f hmem
    exact h.ranAtOnce t f (by simpa [record] using hmem)

/-- A functor has run to its end. -/
theorem functorEnd (h : InOrder s) {f : Queued F} (pc : s.pc = .functor f) :
    InOrder ({ s with pc := .batch }.record (.executed s.threadId f)) := by
  refine h.keep [.executed s.threadId f] rfl rfl ?_ (List.append_nil _).symm
    (fun _ => Or.inl rfl) (by simp) (Or.inl rfl)
  show EventLoop.executed (s.log ++ [.executed s.threadId f]) ++ [] ++ s.funcs = s.taken
  rw [executed_append, List.append_nil, taken, pc]
  rfl

theorem step (h : InOrder s) (hstep : Step s a s') : InOrder s' := by
  cases hstep with
  | queueInLoop may => exact h.push _ _
  | runQueued may other => exact h.push _ _
  | @runAtOnce f may =>
      refine h.keep [.ranAtOnce s.threadId f] rfl rfl ?_ (List.append_nil _).symm h.funcs
        (by simp) (Or.inl rfl)
      show EventLoop.executed (s.log ++ [.ranAtOnce s.threadId f]) ++ s.pc.running ++ s.funcs = _
      rw [executed_append]
      simp [taken, EventLoop.executed]
  | wakeup may | wake call needed | quitWake call other | quitNoWake call | write call =>
      exact h.aside (List.append_nil _).symm rfl rfl rfl h.funcs (by simp)
  | quit may | noWake call calling | writeFor call =>
      exact h.aside rfl rfl rfl rfl h.funcs (by simp [quiet])
  | loop free pc | enterPoll free pc hquit | poll free pc reported | callback free pc active
  | callbackEnd free pc | setCalling free pc active | release free pc =>
      have hfuncs : s.funcs = [] := by
        by_contra hne
        rcases h.funcs hne with hb | ⟨f, hf⟩
        · simp [pc] at hb
        · simp [pc] at hf
      exact h.aside (List.append_nil _).symm rfl (by rw [pc]; rfl) rfl
        (fun hne => absurd hfuncs hne) (by simp)
  | handleRead free pc active =>
      exact h.aside (List.append_nil _).symm rfl rfl rfl h.funcs (by simp)
  | leave free pc hquit =>
      have hfuncs : s.funcs = [] := by
        by_contra hne
        rcases h.funcs hne with hb | ⟨f, hf⟩
        · simp [pc] at hb
        · simp [pc] at hf
      exact h.aside rfl rfl (by rw [pc]; rfl) rfl (fun hne => absurd hfuncs hne)
        (by simp [quiet])
  | swap free pc => exact h.swap pc
  | @runFunctor f rest free pc funcs =>
      exact h.aside (List.append_nil _).symm rfl (by rw [pc, funcs]; rfl) rfl
        (fun _ => Or.inr ⟨f, rfl⟩) (by simp)
  | functorEnd free pc => exact h.functorEnd pc
  | clearCalling free pc funcs =>
      exact h.aside (List.append_nil _).symm rfl (by rw [pc]; rfl) rfl
        (fun hne => absurd funcs hne) (by simp)

end InOrder

theorem inOrder_of_reachable (h : lts.Reachable s) : InOrder s := by
  refine h.induct ?_ ?_
  · rintro s₀ ⟨t, rfl⟩
    exact .new t
  · intro m b m' _ hm hstep
    exact hm.step (step_cases hstep)

/-- The functors that have run from the queue, the one that is running with the rest of its
batch, and the queue are the pushes, in the order of the mutex, each of them once.  What has
left the queue is what was pushed before the last swap, what is in it was pushed since; and
the loop's thread is the only one that runs functors. -/
theorem functors_in_order (h : lts.Reachable s) :
    executed s.log ++ (s.pc.running ++ s.funcs) ++ s.pendingFunctors = pushed s.log ∧
    (pushed s.log).map Queued.number = List.range (pushed s.log).length ∧
    (∀ before since, s.log = before ++ .swapped :: since → .swapped ∉ since →
      executed s.log ++ (s.pc.running ++ s.funcs) = pushed before ∧
        s.pendingFunctors = pushed since) ∧
    (∀ t f, .executed t f ∈ s.log → t = s.threadId) ∧
    ∀ t f, .ranAtOnce t f ∈ s.log → t = s.threadId := by
  have hord := inOrder_of_reachable h
  have htaken : s.taken = executed s.log ++ (s.pc.running ++ s.funcs) := by
    rw [taken, List.append_assoc]
  rw [← htaken]
  refine ⟨hord.fifo, hord.numbers, ?_, hord.executed, hord.ranAtOnce⟩
  intro before since hlog hsince
  rcases hord.swapped with ⟨hno, -⟩ | ⟨b, l, hcut, hl, htook⟩
  · exact absurd (by rw [hlog]; simp) hno
  · obtain ⟨rfl, rfl⟩ := Transcript.cut_unique hl hsince (hcut.symm.trans hlog)
    refine ⟨htook, ?_⟩
    have hfifo := hord.fifo
    rw [htook, hlog, pushed_append] at hfifo
    exact List.append_cancel_left hfifo

/-! ### Whose steps they are -/

/-- The thread whose call an action belongs to. -/
def Action.caller : Action F → Option Tid
  | .queueInLoop t _ => some t
  | .runInLoop t _ => some t
  | .wakeup t => some t
  | .quit t => some t
  | .test t => some t
  | .write t => some t
  | _ => none

theorem Step.threadId (h : Step s a s') : s'.threadId = s.threadId := by
  cases h <;> rfl

/-- An action moves no thread but its caller. -/
theorem Step.calls (h : Step s a s') {t : Tid} (ht : a.caller ≠ some t) :
    s'.calls t = s.calls t := by
  have hset : ∀ {u : Tid} (c : LoopCall), u ≠ t → Function.update s.calls u c t = s.calls t :=
    fun c hne => Function.update_of_ne (Ne.symm hne) _ _
  have hne : ∀ {u : Tid}, a.caller = some u → u ≠ t := fun hu heq => ht (by rw [hu, heq])
  cases h with
  | queueInLoop may | runQueued may other | wakeup may | quit may | wake call needed
  | noWake call calling | quitWake call other | quitNoWake call | writeFor call | write call =>
      exact hset _ (hne rfl)
  | _ => rfl

/-- The calls of a run are made by the threads `ts`. -/
def CalledBy (ts : List Tid) (_ : EventLoop F) (a : Action F) : Prop :=
  ∀ t ∈ a.caller, t ∈ ts

instance (ts : List Tid) (s : EventLoop F) (a : Action F) : Decidable (CalledBy ts s a) :=
  inferInstanceAs (Decidable (∀ t ∈ a.caller, t ∈ ts))

/-- A thread that makes no call is in none. -/
theorem idle_of_calledBy {ts : List Tid} (h : (lts.restrict (CalledBy ts)).Reachable s) {t : Tid}
    (ht : t ∉ ts) : s.calls t = .idle := by
  refine h.induct (P := fun s => s.calls t = .idle) ?_ ?_
  · rintro s₀ ⟨u, rfl⟩
    rfl
  · rintro m b m' _ hm ⟨hb, hstep⟩
    rw [(step_cases hstep).calls (fun hcaller => ht (hb t hcaller))]
    exact hm

/-! ### Running a loop on a list of actions -/

/-- A run of a loop on thread 1, found by computing it.  `c` decides the condition `C` on its
steps as far as the run needs it. -/
theorem exists_of_run (C : EventLoop F → Action F → Prop) (c : EventLoop F → Action F → Bool)
    (hc : ∀ s a, c s a = true → C s a) (as : List (Action F)) (p : EventLoop F → Prop)
    [DecidablePred p]
    (h : (Lts.run (Lts.guarded c next) (new 1) as).any (fun s => decide (p s)) = true) :
    ∃ s, (lts.restrict C).Reachable s ∧ p s := by
  obtain ⟨s, hrun, hp⟩ := Lts.Run.of_run (T := lts) (I := fun _ => True)
    (fun _ _ _ _ hnext => ⟨hnext, trivial⟩) (fun s a _ hca => hc s a hca) ⟨1, rfl⟩ trivial h
  exact ⟨s, ⟨_, hrun⟩, of_decide_eq_true hp⟩

/-- Thread `t` queues a functor, and wakes the loop. -/
def queues (t : Tid) (f : F) : List (Action F) := [.queueInLoop t f, .test t, .write t]

/-- From `epoll_wait`, woken, up to the `for` over `funcs`. -/
def woken : List (Action F) := [.poll [.wakeup], .handleEvent, .setCalling, .swap]

/-- From the end of the batch to the test of `m_quit`. -/
def drained : List (Action F) := [.clearCalling, .release, .testQuit]

/-- The functor of thread 2 is running, and has queued another one. -/
theorem functors_in_order_nested : ∃ s : EventLoop Nat, s.pc = .functor ⟨0, 10⟩ ∧
    s.pendingFunctors = [⟨1, 20⟩] ∧
    executed s.log ++ (s.pc.running ++ s.funcs) ++ s.pendingFunctors = pushed s.log := by
  obtain ⟨s, hr, hpc, hpending⟩ := exists_of_run (fun _ _ => True) (fun _ _ => true)
    (fun _ _ _ => trivial)
    ([Action.loop, .testQuit] ++ queues 2 10 ++ woken ++ [Action.runFunctor] ++ queues 1 20)
    (fun s : EventLoop Nat => s.pc = .functor ⟨0, 10⟩ ∧ s.pendingFunctors = [⟨1, 20⟩])
    (by decide +kernel)
  exact ⟨s, hpc, hpending, (functors_in_order hr.of_restrict).1⟩

end EventLoop

end Muduo
