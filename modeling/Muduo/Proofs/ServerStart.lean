/-
Starting a server, once.

A start has four stages, `Stage`: nobody has called, a thread is in `start`, `listen` is with
the base loop, the acceptor listens.  The thread that finds 0 in `started_` takes it from the
first to the second; as long as the counter has not come round nobody else does.  `listen` is
pushed once and comes out of the queue once, so what has to be known of the base loop is only
how many `listen`s it holds, `EventLoop.listens`.  The pool and the poller keep their own
invariants meanwhile, because what happens to them are steps of theirs.
-/
import Muduo.Proofs.Poller
import Muduo.Proofs.PoolStart
import Muduo.ServerStart

namespace Muduo

def BaseFunctor.isListen {F : Type} : BaseFunctor F → Bool
  | .listen => true
  | .other _ => false

namespace EventLoop

variable {F : Type} {l l' : EventLoop (BaseFunctor F)} {a : Action (BaseFunctor F)}

/-! ### The base loop -/

/-- How many `listen`s are in the queue and in what is left of the batch. -/
def listens (l : EventLoop (BaseFunctor F)) : Nat :=
  (l.funcs ++ l.pendingFunctors).countP fun q => q.functor.isListen

theorem listens_push (t : Tid) (f : BaseFunctor F) :
    (l.push t f).listens = l.listens + if f.isListen then 1 else 0 := by
  show (l.funcs ++ (l.pendingFunctors ++ [_])).countP _ = _
  rw [← List.append_assoc, List.countP_append, List.countP_singleton]
  rfl

/-- The action neither queues a functor nor takes one out. -/
def Action.keepsQueue : Action (BaseFunctor F) → Bool
  | .queueInLoop _ f | .runInLoop _ f => !f.isListen
  | .runFunctor => false
  | _ => true

theorem Step.listens (h : Step l a l') (hord : InOrder l) (ha : a.keepsQueue = true) :
    l'.listens = l.listens := by
  cases h with
  | @queueInLoop t f may | @runQueued t f may other =>
      have hf : f.isListen = false := by simpa [Action.keepsQueue] using ha
      rw [listens_push, hf]
      simp
  | swap free pc =>
      have hfuncs : l.funcs = [] := by
        by_contra hne
        rcases hord.funcs hne with hb | ⟨f, hf⟩
        · simp [pc] at hb
        · simp [pc] at hf
      show (l.pendingFunctors ++ []).countP _ = (l.funcs ++ l.pendingFunctors).countP _
      rw [hfuncs, List.append_nil, List.nil_append]
  | runFunctor free pc funcs => simp [Action.keepsQueue] at ha
  | _ => rfl

/-- A functor that is taken out is the first of the batch. -/
theorem listens_runFunctor (h : Step l .runFunctor l') : ∃ q, l'.pc = .functor q ∧
    l.listens = l'.listens + if q.functor.isListen then 1 else 0 := by
  cases h with
  | @runFunctor f rest free pc funcs =>
      refine ⟨f, rfl, ?_⟩
      show (l.funcs ++ l.pendingFunctors).countP _ = (rest ++ l.pendingFunctors).countP _ + _
      rw [funcs, List.cons_append, List.countP_cons]

end EventLoop

namespace PoolSystem

variable {F : Type} {p p' : PoolSystem F} {a : Action F}

/-! ### The pool -/

theorem Step.aside (h : Step p a p') (ha : a ≠ .getNextLoop) :
    p'.owner = p.owner ∧ p'.handed = p.handed := by
  cases h with
  | getNextLoop pc call => exact absurd rfl ha
  | _ => exact ⟨rfl, rfl⟩

/-- A thread leaves when `threads_` is being destroyed. -/
theorem Placed.leaving (h : Placed p) {i : Nat} {th th' : EventLoopThread F}
    (at_i : p.threads[i]? = some th) (step : EventLoopThread.lts.step th .leave th') :
    p.pc = .destroying i := by
  rcases (EventLoopThread.step_cases step).owner with
    hb | ⟨hb, -⟩ | ⟨-, hfrom, -⟩ | ⟨⟨-, hb⟩, -⟩
  · simp at hb
  · simp at hb
  · exact (h.owners i th at_i).destructing hfrom
  · exact absurd rfl hb

/-- A pool that has been started stays so until it is destroyed. -/
theorem Step.started (h : Step p a p') (hplaced : Placed p) (hpc : p.pc = .started)
    (ha : a ≠ .destroy) : p'.pc = .started := by
  cases h with
  | destroy pc => exact absurd rfl ha
  | member may at_i step other => exact hpc
  | getNextLoop pc call => exact hpc
  | startReturn pc enough => rfl
  | leave at_i step =>
      rw [hplaced.leaving at_i step] at hpc
      simp at hpc
  | start pc | create pc more free | startLoopReturn pc at_i step | destroyReturn pc =>
      rw [hpc] at pc
      simp at pc

/-- Before `start` has been called there is no step but that call. -/
theorem Step.fresh {t : Tid} {name : String} {n : Int} (h : Step (new t name n) a p') :
    ∃ cb, a = .start cb := by
  cases h with
  | start pc => exact ⟨_, rfl⟩
  | startLoopReturn pc at_i step => simp [new] at at_i
  | leave at_i step => simp [new] at at_i
  | member may at_i step other => simp [new] at at_i
  | create pc more free | startReturn pc enough | getNextLoop pc call | destroy pc
  | destroyReturn pc => simp [new] at pc

end PoolSystem

namespace PollerSystem

variable {s s' : PollerSystem} {id : ChannelId}

/-! ### The poller -/

/-- An action leaves the channels it is not about. -/
theorem exec_other {a : Action} (hexec : s.exec a = .ok s') (ha : a.channel ≠ id) :
    s'.channels id = s.channels id := by
  have hput : ∀ {i : ChannelId} {r : EpollPoller × Channel}, i ≠ id →
      (s.put i r).channels id = s.channels id :=
    fun hi => Function.update_of_ne hi.symm ..
  cases a with
  | create i fd | retire i =>
      simp only [exec, Except.ok.injEq] at hexec
      rw [← hexec]
      exact Function.update_of_ne (Ne.symm ha) ..
  | interest i call | remove i =>
      simp only [exec] at hexec
      split at hexec
      · obtain ⟨r, -, rfl⟩ := Except.map_eq_ok.mp hexec
        exact hput ha
      · rw [Except.ok.injEq] at hexec
        rw [hexec]

end PollerSystem

namespace ServerStart

variable {F : Type} {s s' : ServerStart F} {a : Action F} {n : Nat} {c : Channel}

/-! ### The stages -/

/-- The thread `t` has started the pool and is in `runInLoop` or has left, and no connection has
been given a loop. -/
structure Started (s : ServerStart F) (t : Tid) : Prop where
  log : s.log = [.entered t]
  inside : s.pcs t ≠ .starting
  others : ∀ u, u ≠ t → s.pcs u = .outside
  pool : s.pool.pc = .started
  handed : s.pool.handed = []
  listening : s.listening = false

/-- How far a start has come, after `n` calls. -/
inductive Stage (s : ServerStart F) : Nat → Prop
  /-- Nobody has called `start`. -/
  | fresh (log : s.log = []) (pcs : ∀ t, s.pcs t = .outside)
      (pool : ∃ t name numThreads, -2 ^ 31 ≤ numThreads ∧ numThreads < 2 ^ 31 ∧
        s.pool = .new t name numThreads)
      (queue : s.base.listens = 0) (listening : s.listening = false) : Stage s 0
  /-- The thread `t` is inside, and has not come to `runInLoop`. -/
  | starting {n : Nat} {t : Tid} (log : s.log = [.entered t]) (inside : s.pcs t = .starting)
      (others : ∀ u, u ≠ t → s.pcs u = .outside) (owner : s.pool.owner = t)
      (handed : s.pool.handed = []) (queue : s.base.listens = 0)
      (listening : s.listening = false) : Stage s (n + 1)
  /-- `listen` is in the base loop's queue. -/
  | queued {n : Nat} {t : Tid} (started : Started s t) (queue : s.base.listens = 1) :
      Stage s (n + 1)
  /-- The base loop has called `listen`. -/
  | listening {n : Nat} {t : Tid} {loops : List LoopPtr}
      (log : s.log =
        .entered t :: .listen s.base.threadId :: loops.map StartEvent.newConnection)
      (inside : s.pcs t ≠ .starting) (others : ∀ u, u ≠ t → s.pcs u = .outside)
      (pool : s.pool.pc = .started) (handed : s.pool.handed = loops.map some)
      (queue : s.base.listens = 0) (listening : s.listening = true) : Stage s (n + 1)

theorem Started.congr {t : Tid} (h : Started s t) (hlog : s'.log = s.log)
    (hpcs : s'.pcs = s.pcs) (hpool : s'.pool = s.pool) (hlistening : s'.listening = s.listening) :
    Started s' t := by
  obtain ⟨log, inside, others, pool, handed, listening⟩ := h
  rw [← hlog] at log
  rw [← hpcs] at inside others
  rw [← hpool] at pool handed
  exact ⟨log, inside, others, pool, handed, hlistening.trans listening⟩

namespace Stage

/-- A stage is made of the log, the places of the threads, the pool, the `listen`s and
`listening_`. -/
theorem congr (h : Stage s n) (hlog : s'.log = s.log) (hpcs : s'.pcs = s.pcs)
    (hpool : s'.pool = s.pool) (hqueue : s'.base.listens = s.base.listens)
    (hthread : s'.base.threadId = s.base.threadId) (hlistening : s'.listening = s.listening) :
    Stage s' n := by
  cases h with
  | fresh log pcs pool queue listening =>
      rw [← hlog] at log
      rw [← hpcs] at pcs
      rw [← hpool] at pool
      exact .fresh log pcs pool (hqueue.trans queue) (hlistening.trans listening)
  | starting log inside others owner handed queue listening =>
      rw [← hlog] at log
      rw [← hpcs] at inside others
      rw [← hpool] at owner handed
      exact .starting log inside others owner handed (hqueue.trans queue)
        (hlistening.trans listening)
  | queued started queue =>
      exact .queued (started.congr hlog hpcs hpool hlistening) (hqueue.trans queue)
  | listening log inside others pool handed queue listening =>
      rw [← hlog, ← hthread] at log
      rw [← hpcs] at inside others
      rw [← hpool] at pool handed
      exact .listening log inside others pool handed (hqueue.trans queue)
        (hlistening.trans listening)

/-- One more call of `start` changes nothing once there has been one. -/
theorem again (h : Stage s (n + 1)) : Stage s (n + 2) := by
  cases h with
  | starting log inside others owner handed queue listening =>
      exact .starting log inside others owner handed queue listening
  | queued started queue => exact .queued started queue
  | listening log inside others pool handed queue listening =>
      exact .listening log inside others pool handed queue listening

end Stage

/-! ### What is kept -/

/-- The step is a call of `quit` on the loop of one of the pool's threads. -/
def Action.callsQuit : Action F → Bool
  | .pool a => a.callsQuit
  | _ => false

/-- Nobody calls `quit` on the loops of the pool's threads. -/
def Quiet (_ : ServerStart F) (a : Action F) : Prop :=
  a.callsQuit = false

instance (s : ServerStart F) (a : Action F) : Decidable (Quiet s a) :=
  inferInstanceAs (Decidable (_ = _))

/-- The parts of a server, after `n` calls of `start`. -/
structure Sound (s : ServerStart F) (n : Nat) : Prop where
  pool : (PoolSystem.lts.restrict PoolSystem.Quiet).Reachable s.pool
  base : EventLoop.lts.Reachable s.base
  booked : PollerSystem.Booked s.poller
  channel : ∃ c, s.poller.channels s.acceptChannel = some c ∧
    c.index = if s.listening then .kAdded else .kNew
  reported : s.reported.isSome = true → s.listening = true
  callback : s.newConnectionCallback = true
  started : s.started = toInt n

structure Kept (s : ServerStart F) (n : Nat) : Prop extends Sound s n where
  stage : Stage s n

theorem kept_of_init (h : lts.init s) : Kept s 0 := by
  obtain ⟨t, name, numThreads, cb, id, fd, ok, hlow, hhigh, rfl⟩ := h
  have hpoller : PollerSystem.lts.Reachable
      (⟨.empty, Function.update (fun _ => none) id (some (.new id fd))⟩ : PollerSystem) := by
    have h0 : PollerSystem.lts.Reachable (⟨.empty, fun _ => none⟩ : PollerSystem) :=
      Lts.Reachable.of_init ⟨rfl, rfl⟩
    exact h0.step (a := .create id fd) ⟨⟨rfl, by simp⟩, rfl⟩
  exact {
    stage := .fresh rfl (fun _ => rfl) ⟨t, name, numThreads, hlow, hhigh, rfl⟩ rfl rfl
    pool := Lts.Reachable.of_init ⟨t, name, numThreads, hlow, hhigh, rfl⟩
    base := Lts.Reachable.of_init ⟨t, rfl⟩
    booked := PollerSystem.booked_of_reachable hpoller
    channel := ⟨.new id fd, by simp [new], rfl⟩
    reported := by simp [new]
    callback := rfl
    started := rfl }

/-- The base loop watches the acceptor's channel once it listens. -/
theorem Sound.watched (h : Sound s n) : s.watched = s.listening := by
  obtain ⟨c, hc, hindex⟩ := h.channel
  have hiff := PollerSystem.watched_iff (h.booked.agrees _ c hc)
  rw [hindex] at hiff
  unfold ServerStart.watched
  rw [hc, Option.bind_some]
  cases hl : s.listening <;> simpa [hl] using hiff

/-! ### `listen` and `newConnection` -/

/-- `listen` adds the channel to the poller, unless `::listen` fails. -/
theorem listen_eq (hb : PollerSystem.Booked s.poller)
    (hc : s.poller.channels s.acceptChannel = some c) :
    ∃ p, PollerSystem.Booked p ∧
      (∃ d, p.channels s.acceptChannel = some d ∧ d.index = .kAdded) ∧
      s.listen = if s.listenable then
        .ok { s with
          listening := true
          log := s.log ++ [.listen s.base.threadId]
          poller := p }
        else .error .abort := by
  obtain ⟨p, hexec, hbooked⟩ := hb.exec_interest hc .enableReading
  refine ⟨_, hbooked, ⟨_, Function.update_self .., ?_⟩, ?_⟩
  · exact Channel.withEvents_index_of_ne (Channel.or_ne_zero (by decide))
  · unfold listen
    rw [hexec]
    rfl

/-- A pool that has been started has a loop for `newConnection`. -/
theorem newConnection_eq (hpool : (PoolSystem.lts.restrict PoolSystem.Quiet).Reachable s.pool)
    (hpc : s.pool.pc = .started) : ∃ loop p,
      (PoolSystem.lts.restrict PoolSystem.Quiet).step s.pool .getNextLoop p ∧
      p.handed = s.pool.handed ++ [some loop] ∧ p.pc = .started ∧
      s.newConnection = .ok ({ s with pool := p }.record (.newConnection loop)) := by
  have hbuilt := PoolSystem.built_of_reachable hpool
  obtain ⟨loop, pool, hcall, hloop⟩ := hbuilt.getNextLoop (by rw [hpc]; rfl)
  refine ⟨loop, { s.pool with pool := pool, handed := s.pool.handed ++ [some loop] }, ⟨rfl, ?_⟩,
    rfl, hpc, ?_⟩
  · show s.pool.next .getNextLoop = _
    simp only [PoolSystem.next, hpc, PoolSystem.mainStep, hcall]
  · unfold newConnection
    rw [hcall]
    cases loop with
    | null => exact absurd rfl hloop
    | base | worker i => rfl

/-! ### The steps -/

/-- What an action leads to, when nothing but `::listen` fails. -/
def Leads (s : ServerStart F) (n : Nat) : Except Fault (ServerStart F) → Prop
  | .ok s' => Kept s' n
  | .error _ => s.listenable = false

/-- `listen` is called once the pool has been started. -/
theorem Started.leads {t : Tid} (h : Started s t) (hs : Sound s (n + 1))
    (hqueue : s.base.listens = 0) : s.Leads (n + 1) s.listen := by
  obtain ⟨c, hc, -⟩ := hs.channel
  obtain ⟨p, hbooked, ⟨d, hd, hindex⟩, heq⟩ := listen_eq hs.booked hc
  rw [heq]
  by_cases hok : s.listenable = true
  · rw [if_pos hok]
    have hlog : s.log ++ [.listen s.base.threadId] =
        .entered t :: .listen s.base.threadId :: ([] : List LoopPtr).map .newConnection := by
      rw [h.log]
      rfl
    exact { hs with
      booked := hbooked
      channel := ⟨d, hd, hindex⟩
      reported := fun _ => rfl
      stage := .listening hlog h.inside h.others h.pool h.handed hqueue rfl }
  · rw [if_neg hok]
    exact Bool.eq_false_of_not_eq_true hok

/-- `started_` is 0 for the first call only. -/
theorem Sound.zero_iff (h : Sound s n) (hfew : n < 2 ^ 32) : s.started = 0 ↔ n = 0 := by
  rw [h.started]
  unfold toInt
  constructor
  · intro hzero
    have hdvd := Int.dvd_of_bmod_eq_zero hzero
    omega
  · rintro rfl
    rfl

/-- A call of `start` goes on when it is the first, and returns when it is not. -/
theorem Kept.callStart (h : Kept s n) (hfew : n < 2 ^ 32) (t : Tid) :
    ∃ s', s.callStart t = some s' ∧ Kept s' (n + 1) := by
  have hnext : toInt (s.started + 1) = toInt (n + 1 : Nat) := by
    rw [h.started]
    exact Int.bmod_add_bmod
  have hzero := h.zero_iff hfew
  have hstage := h.stage
  unfold ServerStart.callStart
  cases n with
  | zero =>
      rw [if_pos (hzero.mpr rfl)]
      cases hstage with
      | fresh log pcs pool queue listening =>
          obtain ⟨u, name, k, hlow, hhigh, hpool⟩ := pool
          rw [hpool]
          have hinit : (PoolSystem.lts.restrict PoolSystem.Quiet).Reachable
              (PoolSystem.new t name k : PoolSystem F) :=
            Lts.Reachable.of_init ⟨t, name, k, hlow, hhigh, rfl⟩
          refine ⟨_, rfl, { h with
            pool := hinit.step (a := .start s.threadInitCallback) ⟨rfl, rfl⟩
            started := hnext
            stage := .starting (t := t) ?_ ?_ ?_ rfl rfl queue listening }⟩
          · show s.log ++ _ = _
            rw [log]
            rfl
          · exact Function.update_self ..
          · intro u hu
            exact (Function.update_of_ne hu ..).trans (pcs u)
  | succ m =>
      rw [if_neg (by simp [hzero])]
      exact ⟨_, rfl, { h with
        started := hnext
        stage := hstage.again.congr rfl rfl rfl rfl rfl rfl }⟩

/-- A step of the pool. -/
theorem Kept.pool_step (h : Kept s n) {b : PoolSystem.Action F} (hmay : s.mayPool b = true)
    (hquiet : PoolSystem.Quiet s.pool b) {p : PoolSystem F} (hstep : s.pool.next b = some p) :
    Kept { s with pool := p } n := by
  have hcases : PoolSystem.Step s.pool b p := PoolSystem.step_cases hstep
  have hget : b ≠ .getNextLoop := by
    rintro rfl
    simp [mayPool] at hmay
  have hdestroy : b ≠ .destroy := by
    rintro rfl
    simp [mayPool] at hmay
  obtain ⟨howner, hhanded⟩ := hcases.aside hget
  have hplaced := (PoolSystem.built_of_reachable h.pool).placed
  refine { h with pool := h.pool.step ⟨hquiet, hstep⟩, stage := ?_ }
  have hstage := h.stage
  cases hstage with
  | fresh log pcs pool queue listening =>
      obtain ⟨t, name, k, -, -, hpool⟩ := pool
      rw [hpool] at hcases
      obtain ⟨cb, rfl⟩ := hcases.fresh
      simp [mayPool] at hmay
  | starting log inside others owner handed queue listening =>
      exact .starting log inside others (howner.trans owner) (hhanded.trans handed) queue
        listening
  | queued started queue =>
      exact .queued { started with
        pool := hcases.started hplaced started.pool hdestroy
        handed := hhanded.trans started.handed } queue
  | listening log inside others pool handed queue listening =>
      exact .listening log inside others (hcases.started hplaced pool hdestroy)
        (hhanded.trans handed) queue listening

/-- A step of the base loop that leaves the `listen`s where they are. -/
theorem Kept.withBase (h : Kept s n) {b : EventLoop.Action (BaseFunctor F)}
    {base : EventLoop (BaseFunctor F)} (hb : b.keepsQueue = true)
    (hstep : s.base.next b = some base) : Kept { s with base := base } n := by
  have hlts : EventLoop.lts.step s.base b base := hstep
  have hcases := EventLoop.step_cases hlts
  exact { h with
    base := h.base.step hlts
    stage := h.stage.congr rfl rfl rfl
      (hcases.listens (EventLoop.inOrder_of_reachable h.base) hb) hcases.threadId rfl }

/-- A thread inside `start` is the one that came first. -/
theorem Stage.starting_inv {t : Tid} (h : Stage s n) (hpc : s.pcs t = .starting) :
    s.log = [.entered t] ∧ (∀ u, u ≠ t → s.pcs u = .outside) ∧ s.pool.owner = t ∧
      s.pool.handed = [] ∧ s.base.listens = 0 ∧ s.listening = false ∧ ∃ m, n = m + 1 := by
  cases h with
  | fresh log pcs pool queue listening =>
      rw [pcs t] at hpc
      simp at hpc
  | @starting m u log inside others owner handed queue listening =>
      have hu : t = u := by
        by_contra hne
        rw [others t hne] at hpc
        simp at hpc
      subst hu
      exact ⟨log, others, owner, handed, queue, listening, m, rfl⟩
  | @queued m u started queue =>
      by_cases hu : t = u
      · subst hu
        exact absurd hpc started.inside
      · rw [started.others t hu] at hpc
        simp at hpc
  | @listening m u loops log inside others pool handed queue listening =>
      by_cases hu : t = u
      · subst hu
        exact absurd hpc inside
      · rw [others t hu] at hpc
        simp at hpc

/-- The thread that has started the pool gives `listen` to the base loop. -/
theorem Kept.runInLoop_step (h : Kept s n) {t : Tid} (hpc : s.pcs t = .starting)
    (hpool : s.pool.pc = .started) {base : EventLoop (BaseFunctor F)}
    (hstep : s.base.next (.runInLoop t .listen) = some base) :
    s.Leads n (if base.isInLoopThread t then
      ({ s with base := base }.setPc t .handing).listen
      else .ok ({ s with base := base }.setPc t .handing)) := by
  have hlts : EventLoop.lts.step s.base (.runInLoop t .listen) base := hstep
  obtain ⟨hlog, hothers, -, hhanded, hqueue, hlistening, m, rfl⟩ := h.stage.starting_inv hpc
  have hsound : Sound ({ s with base := base }.setPc t .handing) (m + 1) :=
    { h with base := h.base.step hlts }
  have hstarted : Started ({ s with base := base }.setPc t .handing) t := {
    log := hlog
    inside := by simp [setPc]
    others := fun u hu => (Function.update_of_ne hu ..).trans (hothers u hu)
    pool := hpool
    handed := hhanded
    listening := hlistening }
  have hcases := EventLoop.step_cases hlts
  cases hcases with
  | runQueued may other =>
      have hthread : (s.base.push t .listen).isInLoopThread t = false := beq_false_of_ne other
      rw [if_neg (by rw [hthread]; simp)]
      refine { hsound with stage := .queued hstarted ?_ }
      show (s.base.push t .listen).listens = 1
      rw [EventLoop.listens_push, hqueue]
      rfl
  | runAtOnce may =>
      rw [if_pos (by simp [EventLoop.isInLoopThread, EventLoop.record])]
      exact hstarted.leads hsound hqueue

/-- `start` returns. -/
theorem Kept.startReturn_step (h : Kept s n) {t : Tid} (hpc : s.pcs t = .handing) :
    Kept (s.setPc t .outside) n := by
  have hother : ∀ u, s.pcs u = .outside → (s.setPc t .outside).pcs u = .outside := by
    intro u hu
    by_cases hut : u = t
    · rw [hut]
      exact Function.update_self ..
    · exact (Function.update_of_ne hut ..).trans hu
  have hinside : ∀ u, s.pcs u ≠ .starting → (s.setPc t .outside).pcs u ≠ .starting := by
    intro u hu
    by_cases hut : u = t
    · simp [setPc, hut]
    · simpa [setPc, hut] using hu
  have hstage := h.stage
  refine { h with stage := ?_ }
  cases hstage with
  | fresh log pcs pool queue listening =>
      exact .fresh log (fun u => hother u (pcs u)) pool queue listening
  | @starting m u log inside others owner handed queue listening =>
      have hut : u ≠ t := by
        rintro rfl
        rw [inside] at hpc
        simp at hpc
      exact .starting log ((Function.update_of_ne hut ..).trans inside)
        (fun v hv => hother v (others v hv)) owner handed queue listening
  | queued started queue =>
      exact .queued { started with
        inside := hinside _ started.inside
        others := fun v hv => hother v (started.others v hv) } queue
  | listening log inside others pool handed queue listening =>
      exact .listening log (hinside _ inside) (fun v hv => hother v (others v hv)) pool handed
        queue listening

/-- A functor of the base loop's batch is taken out, and it is `listen` or another one. -/
theorem Kept.runFunctor_step (h : Kept s n) {base : EventLoop (BaseFunctor F)}
    (hstep : s.base.next .runFunctor = some base) : s.Leads n (s.withBase .runFunctor base) := by
  have hlts : EventLoop.lts.step s.base .runFunctor base := hstep
  have hcases := EventLoop.step_cases hlts
  obtain ⟨q, hpc, hlistens⟩ := EventLoop.listens_runFunctor hcases
  have hsound : Sound { s with base := base } n := { h with base := h.base.step hlts }
  obtain ⟨number, f⟩ := q
  unfold ServerStart.withBase
  dsimp only
  rw [hpc]
  cases f with
  | other f =>
      exact { hsound with
        stage := h.stage.congr rfl rfl rfl (by simpa [BaseFunctor.isListen] using hlistens.symm)
          hcases.threadId rfl }
  | listen =>
      have hqueue : s.base.listens = base.listens + 1 := hlistens
      have hstage := h.stage
      cases hstage with
      | queued started queue =>
          have hstarted : Started { s with base := base } _ := started.congr rfl rfl rfl rfl
          exact hstarted.leads hsound (Nat.succ.inj (hqueue.symm.trans queue))
      | fresh log pcs pool queue listening
      | starting log inside others owner handed queue listening
      | listening log inside others pool handed queue listening => omega

/-- A step of the base loop, and `listen` when that is what it runs. -/
theorem Kept.base_step (h : Kept s n) {b : EventLoop.Action (BaseFunctor F)}
    (hmay : s.mayBase b = true) {base : EventLoop (BaseFunctor F)}
    (hstep : s.base.next b = some base) : s.Leads n (s.withBase b base) := by
  cases b with
  | runFunctor => exact h.runFunctor_step hstep
  | queueInLoop t f | runInLoop t f =>
      cases f with
      | listen => simp [mayBase] at hmay
      | other f => exact h.withBase rfl hstep
  | _ => exact h.withBase rfl hstep

theorem Kept.withReported (h : Kept s n) {reported : Option Events}
    (hr : reported.isSome = true → s.listening = true) :
    Kept { s with reported := reported } n :=
  { h with
    reported := hr
    stage := h.stage.congr rfl rfl rfl rfl rfl rfl }

/-- Another channel of the base loop's poller does what channels do. -/
theorem Kept.channel_step (h : Kept s n) {b : PollerSystem.Action}
    (hen : s.Enabled (.channel b)) :
    s.Leads n ((s.poller.exec b).map fun poller => { s with poller := poller }) := by
  obtain ⟨hen, hother⟩ := hen
  obtain ⟨poller, hexec⟩ := PollerSystem.exec_of_takes fun _ _ hctl => h.booked.takes hctl
  rw [hexec]
  obtain ⟨c, hc, hindex⟩ := h.channel
  exact { h with
    booked := h.booked.step ⟨hen, hexec⟩
    channel := ⟨c, (PollerSystem.exec_other hexec hother).trans hc, hindex⟩
    stage := h.stage.congr rfl rfl rfl rfl rfl rfl }

/-- `newConnection` when the pool has been started. -/
theorem Kept.handleRead_leads (h : Kept s n) (hlistening : s.listening = true)
    (connfd : Option Fd) : s.Leads n (s.handleRead connfd) := by
  cases connfd with
  | none => exact h
  | some fd =>
      unfold handleRead
      dsimp only
      rw [if_pos h.callback]
      have hstage := h.stage
      cases hstage with
      | @listening m t loops log inside others pool handed queue listening =>
          obtain ⟨loop, p, hstep, hhanded, hpc, heq⟩ := newConnection_eq h.pool pool
          rw [heq]
          have hlog : s.log ++ [.newConnection loop] = .entered t :: .listen s.base.threadId ::
              (loops ++ [loop]).map .newConnection := by
            rw [log, List.map_append]
            rfl
          have hall : p.handed = (loops ++ [loop]).map some := by
            rw [hhanded, handed, List.map_append]
            rfl
          exact { h with
            pool := h.pool.step hstep
            stage := .listening hlog inside others hpc hall queue listening }
      | fresh log pcs pool queue listening => simp [listening] at hlistening
      | starting log inside others owner handed queue listening =>
          simp [listening] at hlistening
      | queued started queue => simp [started.listening] at hlistening

/-- A call of `start`. -/
def Action.isStart : Action F → Bool
  | .start _ => true
  | _ => false

/-- Whatever can happen keeps the server together. -/
theorem Kept.next (h : Kept s n) (hfew : n < 2 ^ 32) (hen : s.Enabled a) (hquiet : Quiet s a)
    {r : Except Fault (ServerStart F)} (hnext : s.next a = some r) :
    s.Leads (n + if a.isStart then 1 else 0) r := by
  cases a with
  | start t =>
      simp only [ServerStart.next, Option.ite_none_right_eq_some, Option.map_eq_some_iff] at hnext
      obtain ⟨-, s', hcall, rfl⟩ := hnext
      obtain ⟨m, hm, hkept⟩ := h.callStart hfew t
      obtain rfl := Option.some.inj (hcall.symm.trans hm)
      exact hkept
  | pool b =>
      simp only [ServerStart.next, Option.ite_none_right_eq_some, Option.map_eq_some_iff] at hnext
      obtain ⟨hmay, p, hstep, rfl⟩ := hnext
      exact h.pool_step hmay hquiet hstep
  | runInLoop t =>
      simp only [ServerStart.next, Option.ite_none_right_eq_some, Option.map_eq_some_iff] at hnext
      obtain ⟨⟨hpc, hpool⟩, base, hstep, rfl⟩ := hnext
      exact h.runInLoop_step hpc hpool hstep
  | startReturn t =>
      simp only [ServerStart.next, Option.ite_none_right_eq_some, Option.some.injEq] at hnext
      obtain ⟨⟨hpc, -⟩, rfl⟩ := hnext
      exact h.startReturn_step hpc
  | base b =>
      simp only [ServerStart.next, Option.ite_none_right_eq_some, Option.map_eq_some_iff] at hnext
      obtain ⟨hmay, base, hstep, rfl⟩ := hnext
      exact h.base_step hmay hstep
  | channel b =>
      simp only [ServerStart.next, Option.some.injEq] at hnext
      rw [← hnext]
      exact h.channel_step hen
  | report active revents =>
      simp only [ServerStart.next, Option.ite_none_right_eq_some, Option.map_eq_some_iff] at hnext
      obtain ⟨⟨-, hwatched, -⟩, base, hstep, rfl⟩ := hnext
      rw [h.watched] at hwatched
      exact (h.withBase rfl hstep).withReported fun _ => hwatched
  | handleEvent connfd =>
      simp only [ServerStart.next] at hnext
      split at hnext
      · rename_i revents rest hreported hactive
        simp only [Option.ite_none_right_eq_some, Option.map_eq_some_iff] at hnext
        obtain ⟨-, base, hstep, rfl⟩ := hnext
        have hlistening := h.reported (by rw [hreported]; rfl)
        have hkept : Kept { s with base := base, reported := none } n :=
          (h.withBase rfl hstep).withReported (by simp)
        by_cases hread : revents.has (EPOLLIN ||| EPOLLPRI) = true
        · rw [if_pos hread]
          exact hkept.handleRead_leads hlistening connfd
        · rw [if_neg hread]
          exact hkept
      · simp at hnext

theorem kept_of_run {as : List (Action F)} (h : (lts.restrict Quiet).Run as s)
    (hfew : as.countP Action.isStart < 2 ^ 32) : Kept s (as.countP Action.isStart) := by
  refine h.induct (P := fun as s => as.countP Action.isStart < 2 ^ 32 →
    Kept s (as.countP Action.isStart)) ?_ ?_ hfew
  · intro s₀ h0 _
    exact kept_of_init h0
  · rintro as m a m' - hm ⟨hquiet, hen, hnext⟩ hfew
    rw [List.countP_append, List.countP_singleton] at hfew ⊢
    exact (hm (by omega)).next (by omega) hen hquiet hnext

/-! ### Runs -/

/-- One step, computed. -/
def stepped (s : ServerStart F) : Action F → Option (ServerStart F)
  | .channel _ => none
  | a => (s.next a).bind Except.toOption

theorem stepped_sound (h : s.stepped a = some s') : lts.step s a s' := by
  cases a with
  | channel b => simp [stepped] at h
  | _ =>
      obtain ⟨r, hnext, hr⟩ := Option.bind_eq_some_iff.mp h
      rw [Except.toOption_eq_some.mp hr] at hnext
      exact ⟨trivial, hnext⟩

/-- A run of a server of one I/O thread, with its loop on thread 1, found by computing it. -/
theorem exists_of_run (as : List (Action F)) (p : ServerStart F → Prop) [DecidablePred p]
    (h : (Lts.run (Lts.guarded (fun s a => decide (Quiet s a)) stepped)
      (new 1 "server" 1 false 0 4 true) as).any (fun s => decide (p s)) = true) :
    ∃ s, (lts.restrict Quiet).Run as s ∧ p s := by
  obtain ⟨s, hrun, hp⟩ := Lts.Run.of_run (T := lts) (C := Quiet) (I := fun _ => True)
    (fun _ _ _ _ hnext => ⟨stepped_sound hnext, trivial⟩)
    (fun _ _ _ hca => of_decide_eq_true hca)
    ⟨1, "server", 1, false, 0, 4, true, by decide, by decide, rfl⟩ trivial h
  exact ⟨s, hrun, of_decide_eq_true hp⟩

/-- Thread 5 starts the server while the base loop is in `epoll_wait`; thread 6 calls `start`
too. -/
def starting : List (Action F) :=
  ([.loop, .testQuit] : List (EventLoop.Action (BaseFunctor F))).map .base ++
    [.start 5, .start 6] ++
    ([.create 2, .member 0 .construct, .member 0 .storeLoop, .member 0 .setPromise,
      .member 0 .startLoopReturn, .startReturn] : List (PoolSystem.Action F)).map .pool ++
    [.runInLoop 5, .base (.test 5), .base (.write 5), .startReturn 5]

/-- The base loop wakes up and calls `listen`, and a connection comes. -/
def accepting : List (Action F) :=
  ([.poll [.wakeup], .handleEvent, .setCalling, .swap, .runFunctor, .functorEnd, .clearCalling,
    .release, .testQuit] : List (EventLoop.Action (BaseFunctor F))).map .base ++
    [.report [.other] EPOLLIN, .handleEvent (some 9)]

/-- However many threads call `start`, at whatever times, one of them starts the pool, and it
does so alone; the base loop's thread calls `listen` once, after the pool has been started, and
until then it holds it in its queue; the acceptor's channel is watched from that call on.  And no
call of `start` is refused. -/
theorem started_once {as : List (Action F)} (h : (lts.restrict Quiet).Run as s)
    (hfew : as.countP Action.isStart < 2 ^ 32) :
    Stage s (as.countP Action.isStart) ∧ s.watched = s.listening ∧
      ∀ t, s.userCode t = true → s.base.mayCall t = true → (s.next (.start t)).isSome = true := by
  have hkept := kept_of_run h hfew
  refine ⟨hkept.stage, hkept.watched, ?_⟩
  intro t huser hmay
  obtain ⟨s', hcall, -⟩ := hkept.callStart hfew t
  simp [next, huser, hmay, hcall]

/-- Two threads have called, and a connection has been given to the one I/O loop. -/
theorem started_once_two : ∃ s : ServerStart Nat,
    s.log = [.entered 5, .listen 1, .newConnection (.worker 0)] ∧ Stage s 2 ∧
      s.watched = true := by
  obtain ⟨s, hrun, hlog, hlistening⟩ := exists_of_run (starting ++ accepting)
    (fun s : ServerStart Nat => s.log = [.entered 5, .listen 1, .newConnection (.worker 0)] ∧
      s.listening = true) (by decide +kernel)
  obtain ⟨hstage, hwatched, -⟩ := started_once hrun (by decide)
  exact ⟨s, hlog, hstage, hwatched.trans hlistening⟩

end ServerStart

end Muduo
