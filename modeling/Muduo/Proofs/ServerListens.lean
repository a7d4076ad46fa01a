/-
A server that is being started comes to listen.

Nothing that a start waits for can keep it waiting: the pool's `start` comes to its end, the
call that the thread may be in on the base loop does, and the base loop's own thread gets
through its queue to `listen`.  The steps for it are those of the three: the thread inside
`start`, the threads it waits for, and the base loop's thread.  `Beside` is what is needed of
the last one, that the first is not in its way.
-/
import Muduo.Proofs.OwnSteps
import Muduo.Proofs.ServerStart

namespace Muduo

namespace EventLoop

variable {F : Type} {l l' : EventLoop F} {a : Action F} {t : Tid}

/-- A call has moved, and `loop()` has not. -/
structure Still (l l' : EventLoop F) : Prop where
  quit : l'.quit = l.quit
  pc : l'.pc = l.pc
  funcs : l'.funcs = l.funcs
  activeChannels : l'.activeChannels = l.activeChannels

theorem Still.unquit (h : Still l l') (hq : Unquit l) : Unquit l' := by
  rw [Unquit, h.quit, h.pc]
  exact hq

/-- What a thread calls leaves the loop where it is. -/
theorem Step.pc_of_caller (h : Step l a l') (ha : a.caller ≠ none) : l'.pc = l.pc := by
  cases h with
  | queueInLoop may | runQueued may other | runAtOnce may | wakeup may | quit may
  | wake call needed | noWake call calling | quitWake call other | quitNoWake call
  | writeFor call | write call => rfl
  | _ => exact absurd rfl ha

end EventLoop

namespace PoolSystem

variable {F : Type} {p p' : PoolSystem F} {a : Action F}

theorem Step.begun (h : Step p a p') (hplaced : Placed p) (hpc : p.pc.begun = true)
    (ha : a ≠ .destroy) : p'.pc.begun = true := by
  cases h with
  | destroy pc => exact absurd rfl ha
  | leave at_i step =>
      rw [hplaced.leaving at_i step] at hpc
      simp [PoolPc.begun] at hpc
  | destroyReturn pc =>
      rw [pc] at hpc
      simp [PoolPc.begun] at hpc
  | member may at_i step other => exact hpc
  | getNextLoop pc call => exact hpc
  | start pc | create pc more free | startLoopReturn pc at_i step | startReturn pc enough => rfl

end PoolSystem

namespace ServerStart

variable {F : Type} {s s' : ServerStart F} {a : Action F} {n : Nat} {t : Tid}

/-! ### The base loop's thread -/

/-- The base loop has moved, and nothing that a start waits for has. -/
structure BaseMoved (s : ServerStart F) (base : EventLoop (BaseFunctor F)) (s' : ServerStart F) :
    Prop where
  base : s'.base = base
  pcs : s'.pcs = s.pcs
  pool : s'.pool.pc = s.pool.pc
  listenable : s'.listenable = s.listenable

theorem listen_moved (h : s.listen = .ok s') : BaseMoved s s.base s' := by
  unfold listen at h
  split at h
  · obtain ⟨poller, -, rfl⟩ := Except.map_eq_ok.mp h
    exact ⟨rfl, rfl, rfl, rfl⟩
  · simp at h

theorem newConnection_moved (h : s.newConnection = .ok s') : BaseMoved s s.base s' := by
  unfold newConnection at h
  obtain ⟨⟨ioLoop, pool⟩, -, h⟩ := Except.bind_eq_ok.mp h
  dsimp only at h
  split at h
  · simp at h
  · simp at h
  · rw [Except.pure_eq_ok] at h
    rw [← h]
    exact ⟨rfl, rfl, rfl, rfl⟩

theorem handleRead_moved {connfd : Option Fd} (h : s.handleRead connfd = .ok s') :
    BaseMoved s s.base s' := by
  unfold handleRead at h
  split at h
  · split at h
    · exact newConnection_moved h
    · rw [Except.ok.injEq] at h
      rw [h]
      exact ⟨rfl, rfl, rfl, rfl⟩
  · rw [Except.ok.injEq] at h
    rw [h]
    exact ⟨rfl, rfl, rfl, rfl⟩

theorem withBase_moved {b : EventLoop.Action (BaseFunctor F)} {base : EventLoop (BaseFunctor F)}
    (h : s.withBase b base = .ok s') : BaseMoved s base s' := by
  unfold withBase at h
  dsimp only at h
  split at h
  · obtain ⟨hbase, hpcs, hpool, hlistenable⟩ := listen_moved h
    exact ⟨hbase, hpcs, hpool, hlistenable⟩
  · rw [Except.ok.injEq] at h
    rw [← h]
    exact ⟨rfl, rfl, rfl, rfl⟩

/-- The base loop's thread is inside `start` only from user code, and not with `listen` in the
queue; and with a thread inside, the pool's own `start` has been called. -/
structure Beside (s : ServerStart F) : Prop where
  user : s.pcs s.base.threadId = .starting → s.base.pc.isUser = true
  away : 0 < s.base.listens → s.pcs s.base.threadId = .outside
  pool : ∀ t, s.pcs t = .starting → s.pool.pc.begun = true

/-- A step that the base loop's thread takes, or that another takes in a call. -/
theorem Beside.base_step (h : Beside s) (hk : Kept s n) {b : EventLoop.Action (BaseFunctor F)}
    (hfree : s.pcs s.base.threadId = .starting → b.caller ≠ none)
    (hfew : b.keepsQueue = true ∨ b = .runFunctor) {base : EventLoop (BaseFunctor F)}
    (hstep : s.base.next b = some base) (hmoved : BaseMoved s base s') : Beside s' := by
  have hlts : EventLoop.lts.step s.base b base := hstep
  have hcases := EventLoop.step_cases hlts
  have hle : base.listens ≤ s.base.listens := by
    rcases hfew with hkeeps | rfl
    · exact Nat.le_of_eq (hcases.listens (EventLoop.inOrder_of_reachable hk.base) hkeeps)
    · obtain ⟨q, -, hlistens⟩ := EventLoop.listens_runFunctor hcases
      omega
  refine ⟨?_, ?_, ?_⟩
  · rw [hmoved.base, hmoved.pcs, hcases.threadId]
    intro hinside
    rw [hcases.pc_of_caller (hfree hinside)]
    exact h.user hinside
  · rw [hmoved.base, hmoved.pcs, hcases.threadId]
    exact fun hlistens => h.away (Nat.lt_of_lt_of_le hlistens hle)
  · rw [hmoved.pcs, hmoved.pool]
    exact h.pool

theorem Beside.callStart (h : Beside s) (hk : Kept s n) (hfew : n < 2 ^ 32)
    (hmay : s.base.mayCall t = true) (hcall : s.callStart t = some s') : Beside s' := by
  unfold ServerStart.callStart at hcall
  by_cases hzero : s.started = 0
  · rw [if_pos hzero, Option.map_eq_some_iff] at hcall
    obtain ⟨p, hstart, rfl⟩ := hcall
    obtain rfl := (hk.zero_iff hfew).mp hzero
    have hstage := hk.stage
    cases hstage with
    | fresh log pcs pool queue listening =>
        refine ⟨?_, fun hlistens => absurd queue (Nat.ne_of_gt hlistens), ?_⟩
        · show Function.update s.pcs t .starting s.base.threadId = .starting →
            s.base.pc.isUser = true
          intro hinside
          by_cases ht : s.base.threadId = t
          · exact (EventLoop.mayCall_iff.mp hmay).user ht.symm
          · rw [Function.update_of_ne ht, pcs] at hinside
            simp at hinside
        · intro u _
          cases PoolSystem.step_cases hstart with
          | start pc => rfl
  · rw [if_neg hzero, Option.some.injEq] at hcall
    rw [← hcall]
    exact ⟨h.user, h.away, h.pool⟩

theorem Beside.pool_step (h : Beside s) (hk : Kept s n) {b : PoolSystem.Action F}
    (hmay : s.mayPool b = true) {p : PoolSystem F} (hstep : s.pool.next b = some p) :
    Beside { s with pool := p } := by
  have hcases : PoolSystem.Step s.pool b p := PoolSystem.step_cases hstep
  have hplaced := (PoolSystem.built_of_reachable hk.pool).placed
  refine ⟨h.user, h.away, fun u hu => hcases.begun hplaced (h.pool u hu) ?_⟩
  rintro rfl
  simp [mayPool] at hmay

/-- The thread gives `listen` away, and is in no one's way after it. -/
theorem Beside.runInLoop_step (hk : Kept s n) (hpc : s.pcs t = .starting)
    {base : EventLoop (BaseFunctor F)} (hstep : s.base.next (.runInLoop t .listen) = some base)
    (hbase : s'.base = base) (hpcs : s'.pcs = Function.update s.pcs t .handing) :
    Beside s' ∧ ∀ u, s'.pcs u ≠ .starting := by
  have hlts : EventLoop.lts.step s.base (.runInLoop t .listen) base := hstep
  have hcases := EventLoop.step_cases hlts
  obtain ⟨-, hothers, -, -, hqueue, -⟩ := hk.stage.starting_inv hpc
  have hnobody : ∀ u, s'.pcs u ≠ .starting := by
    intro u
    rw [hpcs]
    by_cases hu : u = t
    · simp [hu]
    · rw [Function.update_of_ne hu, hothers u hu]
      simp
  refine ⟨⟨?_, ?_, ?_⟩, hnobody⟩
  · exact fun hinside => absurd hinside (hnobody _)
  · rw [hpcs, hbase, hcases.threadId]
    intro hlistens
    cases hcases with
    | runQueued may other => rw [Function.update_of_ne other.symm, hothers _ other.symm]
    | runAtOnce may => exact absurd hqueue (Nat.ne_of_gt hlistens)
  · exact fun u hinside => absurd hinside (hnobody u)

theorem Beside.startReturn_step (h : Beside s) (t : Tid) : Beside (s.setPc t .outside) := by
  have hpcs : ∀ u pc, Function.update s.pcs t StartPc.outside u = pc →
      pc = .outside ∨ s.pcs u = pc := by
    intro u pc hu
    by_cases hut : u = t
    · rw [hut, Function.update_self] at hu
      exact Or.inl hu.symm
    · rw [Function.update_of_ne hut] at hu
      exact Or.inr hu
  have hstill : ∀ u, (s.setPc t .outside).pcs u = .starting → s.pcs u = .starting := by
    intro u hinside
    rcases hpcs _ _ hinside with hne | hold
    · simp at hne
    · exact hold
  refine ⟨fun hinside => h.user (hstill _ hinside), ?_, fun u hu => h.pool u (hstill u hu)⟩
  intro hlistens
  by_cases ht : s.base.threadId = t
  · exact ht ▸ Function.update_self ..
  · exact (Function.update_of_ne ht ..).trans (h.away hlistens)

theorem Beside.next (h : Beside s) (hk : Kept s n) (hfew : n < 2 ^ 32)
    (hnext : s.next a = some (.ok s')) : Beside s' := by
  have hfree : s.baseFree = true → s.pcs s.base.threadId ≠ .starting := by
    intro hout
    have hout : s.pcs s.base.threadId = .outside := by simpa [baseFree] using hout
    simp [hout]
  cases a with
  | start t =>
      simp only [ServerStart.next, Option.ite_none_right_eq_some, Option.map_eq_some_iff,
        Except.ok.injEq] at hnext
      obtain ⟨⟨-, hmay⟩, m, hcall, rfl⟩ := hnext
      exact h.callStart hk hfew hmay hcall
  | pool b =>
      simp only [ServerStart.next, Option.ite_none_right_eq_some, Option.map_eq_some_iff,
        Except.ok.injEq] at hnext
      obtain ⟨hmay, p, hstep, rfl⟩ := hnext
      exact h.pool_step hk hmay hstep
  | runInLoop t =>
      simp only [ServerStart.next, Option.ite_none_right_eq_some, Option.map_eq_some_iff] at hnext
      obtain ⟨⟨hpc, -⟩, base, hstep, hr⟩ := hnext
      split at hr
      · have hmoved := listen_moved hr
        exact (Beside.runInLoop_step hk hpc hstep hmoved.base hmoved.pcs).1
      · rw [Except.ok.injEq] at hr
        exact (Beside.runInLoop_step hk hpc hstep (by rw [← hr]; rfl) (by rw [← hr]; rfl)).1
  | startReturn t =>
      simp only [ServerStart.next, Option.ite_none_right_eq_some, Option.some.injEq,
        Except.ok.injEq] at hnext
      obtain ⟨-, rfl⟩ := hnext
      exact h.startReturn_step t
  | base b =>
      simp only [ServerStart.next, Option.ite_none_right_eq_some, Option.map_eq_some_iff] at hnext
      obtain ⟨hmay, base, hstep, hr⟩ := hnext
      refine h.base_step hk ?_ ?_ hstep (withBase_moved hr)
      · rintro hinside hcaller
        have hbusy : s.baseFree ≠ true := fun hout => hfree hout hinside
        cases b with
        | queueInLoop t f | runInLoop t f | wakeup t | quit t | test t | write t =>
            simp [EventLoop.Action.caller] at hcaller
        | handleEvent => simp [mayBase, hbusy] at hmay
        | _ => exact hbusy hmay
      · cases b with
        | queueInLoop t f | runInLoop t f =>
            cases f with
            | listen => simp [mayBase] at hmay
            | other f => exact Or.inl rfl
        | runFunctor => exact Or.inr rfl
        | _ => exact Or.inl rfl
  | channel b =>
      simp only [ServerStart.next, Option.some.injEq] at hnext
      obtain ⟨poller, -, rfl⟩ := Except.map_eq_ok.mp hnext
      exact ⟨h.user, h.away, h.pool⟩
  | report active revents =>
      simp only [ServerStart.next, Option.ite_none_right_eq_some, Option.map_eq_some_iff,
        Except.ok.injEq] at hnext
      obtain ⟨⟨hout, -⟩, base, hstep, rfl⟩ := hnext
      exact h.base_step hk (fun hinside => absurd hinside (hfree hout)) (Or.inl rfl) hstep
        ⟨rfl, rfl, rfl, rfl⟩
  | handleEvent connfd =>
      simp only [ServerStart.next] at hnext
      split at hnext
      · simp only [Option.ite_none_right_eq_some, Option.map_eq_some_iff] at hnext
        obtain ⟨hout, base, hstep, hr⟩ := hnext
        have hmoved : BaseMoved s base s' := by
          split at hr
          · obtain ⟨hbase, hpcs, hpool, hlistenable⟩ := handleRead_moved hr
            exact ⟨hbase, hpcs, hpool, hlistenable⟩
          · rw [Except.ok.injEq] at hr
            rw [← hr]
            exact ⟨rfl, rfl, rfl, rfl⟩
        exact h.base_step hk (fun hinside => absurd hinside (hfree hout)) (Or.inl rfl) hstep hmoved
      · simp at hnext

/-- A step of the thread inside `start`, also in the call of the base loop that it has begun, of a
thread of the pool on the way to its promise, or of the base loop's thread on its own. -/
def Goes (s : ServerStart F) : Action F → Prop
  | .pool b => PoolSystem.OnStart s.base.threadId s.pool b
  | .runInLoop t => t = s.pool.owner
  | .base (.test t) => t = s.pool.owner ∨ t = s.base.threadId
  | .base (.write t) => t = s.pool.owner ∨ t = s.base.threadId
  | .base b => EventLoop.Own s.base b
  | _ => False

theorem Goes.quiet (h : Goes s a) : Quiet s a ∧ s.Enabled a ∧ a.isStart = false := by
  cases a with
  | pool b => exact ⟨PoolSystem.OnStart.quiet (s := s.pool) h, trivial, rfl⟩
  | start t | channel b => exact h.elim
  | _ => exact ⟨rfl, trivial, rfl⟩

theorem Kept.goes (h : Kept s n) (hb : Beside s) (hfew : n < 2 ^ 32) (hgoes : Goes s a)
    (hnext : s.next a = some (.ok s')) : Kept s' n ∧ Beside s' := by
  obtain ⟨hquiet, hen, hstart⟩ := hgoes.quiet
  have hleads := h.next hfew hen hquiet hnext
  rw [hstart] at hleads
  exact ⟨hleads, hb.next h hfew hnext⟩

/-- Nothing is lost on the way. -/
theorem Kept.path (h : Kept s n) (hb : Beside s) (hfew : n < 2 ^ 32) {as : List (Action F)}
    (hp : Lts.Path (lts.restrict Goes) s as s') : Kept s' n ∧ Beside s' :=
  hp.induct (P := fun m => Kept m n ∧ Beside m) ⟨h, hb⟩
    fun _ _ _ hm hstep => hm.1.goes hm.2 hfew hstep.1 hstep.2.2

end ServerStart

end Muduo
