/-
The loops do not run on without cause.

What a loop does between two polls it does for an event, for a functor or for a connection to
accept, and each of these is handled in a few steps, of which some leave functors to other loops:
a close goes to the base loop and from there back to the loop of the connection.  `work` bounds
the steps that everything there is to do can still take.  Every step of a loop towards its next
poll lowers it, so there are no more of these steps than polls, calls and the destructor are the
cause of, however the threads take turns.
-/
import Muduo.Lib.Potential
import Muduo.Proofs.Notify
import Muduo.Proofs.Wired
import Muduo.ServerTrace

namespace Muduo

/-- The steps of a loop for a functor, with those for what it leaves. -/
def Functor.work : Functor → Nat
  | .shutdownInLoop _ | .connectEstablished _ | .writeComplete _ | .highWaterMark _ _ => 1
  -- it may queue a user callback
  | .sendInLoop _ _ => 2
  -- two pieces
  | .connectDestoryed _ => 3
  -- it queues `connectDestoryed`
  | .removeConnectionInLoop _ => 4

/-- The same for a piece of a handler. -/
def Frame.work : Frame → Nat
  | .connectEstablished | .errorPart | .destoryStore | .destoryRemove => 1
  -- it may queue the write complete callback
  | .writePart => 2
  -- it queues the removal
  | .closeCallback => 5
  -- they may close
  | .closePart | .readPart => 6

/-- The steps of the loop itself up to its next poll. -/
def LoopPhase.work : LoopPhase → Nat
  | .polling => 0
  | .handling => 2
  | .functors => 1

namespace Ctx

variable {x y : Ctx} {mem : Mem} {call : SendCall} {w : WriteResult} {io : Io}

/-! ### What the members of a connection leave -/

theorem queueWriteComplete_length : x.queueWriteComplete.pending.length ≤ x.pending.length + 1 := by
  unfold queueWriteComplete
  split <;> simp

theorem queueHighWaterMark_length {added : Nat} :
    (x.queueHighWaterMark added).pending.length ≤ x.pending.length + 1 := by
  unfold queueHighWaterMark
  dsimp only
  split <;> simp

theorem handleWrite_length (h : x.handleWrite w = .ok y) :
    y.pending.length ≤ x.pending.length + 1 := by
  unfold handleWrite at h
  split at h
  · dsimp only at h
    split at h
    · split at h
      · rw [writeFinished_pending h]
        exact queueWriteComplete_length
      · rw [← Except.ok.inj h]
        exact Nat.le_succ _
    · rw [← Except.ok.inj h]
      exact Nat.le_succ _
  · rw [← Except.ok.inj h]
    exact Nat.le_succ _

theorem bufferRemaining_length {d : Direct} (h : x.bufferRemaining mem call d = .ok y) :
    y.pending.length ≤ x.pending.length + if 0 < d.remaining then 1 else 0 := by
  unfold bufferRemaining at h
  split at h
  · rename_i hpos
    rw [if_pos hpos.2]
    obtain ⟨data, -, h⟩ := Except.bind_eq_ok.mp h
    obtain ⟨out, -, h⟩ := Except.bind_eq_ok.mp h
    dsimp only at h
    split at h
    · obtain ⟨p, c, -, rfl⟩ := updating_eq_ok h
      exact queueHighWaterMark_length
    · rw [Except.pure_eq_ok] at h
      rw [← h]
      exact queueHighWaterMark_length
  · rw [Except.pure_eq_ok] at h
    rw [← h]
    exact Nat.le_add_right _ _

/-- Either all of the message is written at once or some of it is buffered, not both. -/
theorem sendInLoop_length (h : x.sendInLoop mem call w = .ok y) :
    y.pending.length ≤ x.pending.length + 1 := by
  have hone : ∀ d : Direct, (if 0 < d.remaining then 1 else 0) ≤ 1 := by
    intro d
    split <;> omega
  unfold sendInLoop at h
  split at h
  · rw [← Except.ok.inj h]
    exact Nat.le_succ _
  · split at h
    · obtain ⟨⟨z, d⟩, hd, h⟩ := Except.bind_eq_ok.mp h
      have hbuffered := bufferRemaining_length h
      have hwrote := directWrite_pending hd
      split at hwrote
      · rename_i hnone
        rw [if_neg (by omega)] at hbuffered
        have hqueued := queueWriteComplete_length (x := x)
        rw [← hwrote] at hqueued
        omega
      · have := hone d
        rw [hwrote] at hbuffered
        omega
    · have hbuffered := bufferRemaining_length h
      have := hone ⟨0, call.len, false, []⟩
      omega

/-- A piece of a handler leaves less to do than it was. -/
theorem runFrame_work {f : Frame} {fs : List Frame} (h : x.runFrame io f = .ok (y, fs)) :
    y.pending.length + (fs.map Frame.work).sum + 1 ≤ x.pending.length + f.work := by
  cases f with
  | connectEstablished =>
      obtain ⟨hest, rfl⟩ := runFrame_connectEstablished h
      simp [hest.pending, Frame.work]
  | closePart =>
      rcases runFrame_closePart h with ⟨rfl, rfl⟩ | ⟨-, -, hclose, rfl⟩
      · simp [Frame.work]
      · simp [hclose.pending, Frame.work]
  | errorPart =>
      obtain ⟨rfl, rfl⟩ := runFrame_errorPart h
      simp [Frame.work]
  | readPart =>
      rcases runFrame_readPart h with ⟨rfl, rfl⟩ | ⟨-, z, hread, ⟨rfl, rfl⟩ | ⟨hclose, rfl⟩⟩
      · simp [Frame.work]
      · simp [hread.pending, Frame.work]
      · simp [hclose.pending, hread.pending, Frame.work]
  | writePart =>
      obtain ⟨rfl, rfl | ⟨-, hwrite⟩⟩ := runFrame_writePart h
      · simp [Frame.work]
      · have hle := handleWrite_length hwrite
        simp only [Frame.work, List.map_nil, List.sum_nil]
        omega
  | closeCallback =>
      obtain ⟨rfl, rfl⟩ := runFrame_closeCallback h
      simp [Frame.work]
  | destoryStore =>
      obtain ⟨hclose, rfl⟩ := runFrame_destoryStore h
      simp [hclose.pending, Frame.work]
  | destoryRemove =>
      obtain ⟨hremove, rfl⟩ := runFrame_destoryRemove h
      simp [hremove.pending, Frame.work]

/-- So does a functor. -/
theorem runFunctor_work {f : Functor} {fs : List Frame}
    (h : x.runFunctor mem io f = .ok (y, fs)) :
    y.pending.length + (fs.map Frame.work).sum + 1 ≤ x.pending.length + f.work := by
  cases f with
  | sendInLoop c call =>
      obtain ⟨hsend, rfl⟩ := runFunctor_sendInLoop h
      have hle := sendInLoop_length hsend
      simp only [Functor.work, List.map_nil, List.sum_nil]
      omega
  | shutdownInLoop c =>
      obtain ⟨rfl, rfl⟩ := runFunctor_shutdownInLoop h
      simp [Functor.work]
  | connectEstablished c =>
      obtain ⟨hest, rfl⟩ := runFunctor_connectEstablished h
      simp [hest.pending, Functor.work]
  | connectDestoryed c =>
      obtain ⟨rfl, rfl⟩ := runFunctor_connectDestoryed h
      split <;> simp [Functor.work, Frame.work]
  | writeComplete c | highWaterMark c n =>
      obtain ⟨rfl, rfl⟩ := runFunctor_userCallback rfl h
      simp [Functor.work]
  | removeConnectionInLoop c =>
      obtain ⟨rfl, rfl⟩ := runFunctor_removeConnectionInLoop h
      simp [Functor.work]

end Ctx

/-- User callbacks leave nothing. -/
theorem Functor.work_of_userCallbacks {q : List Functor}
    (h : ∀ f ∈ q, f.isUserCallback = true) : (q.map Functor.work).sum = q.length := by
  induction q with
  | nil => rfl
  | cons f q ih =>
      have hone : f.work = 1 := by
        have hf := h f List.mem_cons_self
        cases f <;> first | rfl | simp [isUserCallback] at hf
      rw [List.map_cons, List.sum_cons, List.length_cons, hone,
        ih fun g hg => h g (List.mem_cons_of_mem _ hg)]
      omega

/-- The steps of the loop for all that it has been given to do, with those of other loops for
what it leaves. -/
def LoopState.work (q : LoopState) : Nat :=
  q.phase.work + 16 * q.active.length + (if q.accepting then 2 else 0) +
    (q.queue.map Functor.work).sum + (q.batch.map Functor.work).sum +
    (q.frames.map Frame.work).sum

namespace TcpServer

variable {s s' : TcpServer} {a : Action} {l : LoopId} {c : ConnId} {x : Accepted} {y : Ctx}
  {f : Functor} {fs : List Frame} {t : Tid}

/-- What all the loops have to do. -/
def work (s : TcpServer) : Nat := ∑ l ∈ Finset.range s.size, (s.loops l).work

/-- A step of a loop towards its next poll. -/
def Action.isTurn : Action → Bool
  | .accept _ | .handleEvent _ _ | .frame _ _ | .swap _ | .functor _ _ | .batchEnd _ => true
  | _ => false

/-- The most such steps that an action is the cause of. -/
def Action.causes : Action → Nat
  | .poll _ reports accepting => 2 + 16 * reports.length + if accepting then 2 else 0
  | .sendRun _ _ _ => 2
  | .shutdownRun _ _ => 1
  | .release _ => 3
  | _ => 0

/-! ### What an update adds to it -/

@[simp] theorem work_setPc {pc : CallPc} : (s.setPc c t pc).work = s.work := rfl
@[simp] theorem work_record {e : ServerEntry} : (s.record e).work = s.work := rfl
@[simp] theorem work_erased {e : ServerEntry} : (s.erased c e).work = s.work := rfl
@[simp] theorem work_enlist {fd : Fd} : (s.enlist fd).work = s.work := rfl
@[simp] theorem work_handled : (s.handled c x).work = s.work := rfl

theorem work_setLoop {q : LoopState} (hl : l < s.size) :
    (s.setLoop l q).work + (s.loops l).work = s.work + q.work := by
  have hself : (s.setLoop l q).loops l = q := by rw [setLoop_loops, if_pos rfl]
  have hchange := Finset.sum_change (t := Finset.range s.size)
    (f := fun l' => (s.loops l').work) (g := fun l' => ((s.setLoop l q).loops l').work)
    (Finset.mem_range.mpr hl) (fun l' hne => by simp only [setLoop_loops, if_neg hne])
  rw [hself] at hchange
  exact hchange

theorem work_push (hl : l < s.size) : (s.push l f).work = s.work + f.work := by
  have hset : (s.push l f).work + (s.loops l).work = s.work +
      LoopState.work { s.loops l with queue := (s.loops l).queue ++ [f] } := work_setLoop hl
  simp only [LoopState.work, List.map_append, List.sum_append, List.map_singleton,
    List.sum_singleton] at hset
  omega

theorem work_enter (hl : l < s.size) (c : ConnId) (fs : List Frame) : (s.enter l c fs).work +
    ((s.loops l).frames.map Frame.work).sum = s.work + (fs.map Frame.work).sum := by
  have hset : (s.enter l c fs).work + (s.loops l).work = s.work +
      LoopState.work { s.loops l with inside := c, frames := fs } := work_setLoop hl
  simp only [LoopState.work] at hset
  omega

theorem work_popped {rest : List Functor} (hl : l < s.size)
    (hbatch : (s.loops l).batch = f :: rest) :
    (s.popped l rest).work + f.work = s.work := by
  have hset : (s.popped l rest).work + (s.loops l).work = s.work +
      LoopState.work { s.loops l with batch := rest } := work_setLoop hl
  simp only [LoopState.work, hbatch, List.map_cons, List.sum_cons] at hset
  omega

theorem work_put (hl : x.loop < s.size) :
    (s.put c x y).work = s.work + (y.pending.map Functor.work).sum := by
  have hset : (s.put c x y).work + (s.loops x.loop).work = s.work + LoopState.work
      { s.loops x.loop with
        poller := y.poller
        queue := (s.loops x.loop).queue ++ y.pending } :=
    work_setLoop (s := s.setConn c { x with conn := y.conn, log := y.log }) hl
  simp only [LoopState.work, List.map_append, List.sum_append] at hset
  omega

/-- A piece of a connection's code, with what it leaves. -/
theorem work_ran (hloop : x.loop = l) (hl : l < s.size) (hy : Ctx.Local (s.ctx x) y)
    (c : ConnId) (fs : List Frame) :
    ((s.put c x y).enter l c fs).work + ((s.loops l).frames.map Frame.work).sum =
      s.work + y.pending.length + (fs.map Frame.work).sum := by
  subst hloop
  obtain ⟨q, hq, hall⟩ := hy.pending
  obtain rfl : y.pending = q := hq
  have henter := work_enter (s := s.put c x y) (l := x.loop) hl c fs
  have hput : ((s.put c x y).loops x.loop).frames = (s.loops x.loop).frames := by
    rw [put_loops, if_pos rfl]
  rw [hput, work_put hl, Functor.work_of_userCallbacks hall] at henter
  exact henter

/-! ### The calls -/

/-- What a call leaves on the loop of its connection. -/
theorem call_work {b : ConnSystem.Action} {v : ConnSystem} {pc : CallPc}
    (own : a.own = some (c, b)) (hexec : v.exec b = .ok ((v.put y).setPc t pc)) :
    (y.pending.map Functor.work).sum ≤ a.causes := by
  have hqueue : ∀ z u pc', (v.put z).setPc u pc' = (v.put y).setPc t pc →
      y.pending = z.pending := by
    intro z u pc' heq
    have hsame : v.queue ++ z.pending = v.queue ++ y.pending := congrArg ConnSystem.queue heq
    exact (List.append_cancel_left hsame).symm
  have hnone : ∀ w : ConnSystem, w.queue = v.queue → w = (v.put y).setPc t pc →
      y.pending = [] := by
    intro w hw heq
    have hsame : w.queue = v.queue ++ y.pending := congrArg ConnSystem.queue heq
    rw [hw] at hsame
    exact List.self_eq_append_right.mp hsame
  cases a with
  | send u d message len =>
      obtain ⟨rfl, rfl⟩ := Prod.mk.inj (Option.some.inj own)
      obtain ⟨⟨z, pc'⟩, hz, hexec⟩ := Except.bind_eq_ok.mp hexec
      obtain ⟨bytes, -, hz⟩ := Except.bind_eq_ok.mp hz
      rw [Except.pure_eq_ok] at hexec hz
      rw [hqueue _ _ _ hexec]
      split at hz
      · rw [← (Prod.mk.inj hz).1]
        exact Nat.zero_le _
      · rw [← (Prod.mk.inj hz).1]
        exact Nat.zero_le _
  | sendRun u d w =>
      obtain ⟨rfl, rfl⟩ := Prod.mk.inj (Option.some.inj own)
      simp only [ConnSystem.exec] at hexec
      split at hexec
      · rename_i call hpc
        obtain ⟨z, hz, hexec⟩ := Except.bind_eq_ok.mp hexec
        obtain ⟨z', hz', hz⟩ := Except.bind_eq_ok.mp hz
        rw [Except.pure_eq_ok] at hexec hz
        rw [hqueue _ _ _ hexec, ← hz]
        show (z'.pending.map Functor.work).sum ≤ 2
        unfold Ctx.dispatchSend at hz'
        split at hz'
        · obtain ⟨q, hq, hall⟩ := (Ctx.sendInLoop_outputStep hz').pending
          obtain rfl : z'.pending = q := hq
          have hle : z'.pending.length ≤ 0 + 1 := Ctx.sendInLoop_length hz'
          rw [Functor.work_of_userCallbacks hall]
          omega
        · rw [← Except.ok.inj hz']
          exact Nat.le_refl 2
      · rw [hnone v rfl (Except.ok.inj hexec)]
        exact Nat.zero_le _
  | shutdown u d =>
      obtain ⟨rfl, rfl⟩ := Prod.mk.inj (Option.some.inj own)
      rw [hqueue _ _ _ (Except.ok.inj hexec)]
      unfold Ctx.shutdown
      dsimp only
      split <;> exact Nat.zero_le _
  | shutdownStore u d =>
      obtain ⟨rfl, rfl⟩ := Prod.mk.inj (Option.some.inj own)
      rw [hqueue _ _ _ (Except.ok.inj hexec)]
      exact Nat.zero_le _
  | shutdownRun u d =>
      obtain ⟨rfl, rfl⟩ := Prod.mk.inj (Option.some.inj own)
      rw [hqueue _ _ _ (Except.ok.inj hexec)]
      unfold Ctx.shutdownRun
      split
      · rw [Ctx.shutdownInLoop_pending]
        exact Nat.zero_le _
      · exact Nat.le_refl 1
  | setWriteCompleteCallback d isSet | setHighWaterMarkCallback d isSet mark =>
      obtain ⟨rfl, rfl⟩ := Prod.mk.inj (Option.some.inj own)
      have hset := Except.ok.inj hexec
      rw [hnone _ (by rfl) hset]
      exact Nat.zero_le _
  | _ => simp [Action.own] at own

/-! ### The steps -/

theorem Wired.active_nil (h : Wired s) (phase : (s.loops l).phase = .polling) :
    (s.loops l).active = [] := by
  refine (h.loops l).handling.resolve_left ?_
  rw [phase]
  simp

theorem Wired.batch_nil (h : Wired s) (phase : (s.loops l).phase = .handling) :
    (s.loops l).batch = [] := by
  refine (h.loops l).order.resolve_left ?_
  rw [phase]
  simp

theorem work_polled {reports : List (Fd × Events)} {accepting : Bool} (h : Wired s)
    (en : s.Enabled (.poll l reports accepting)) :
    (s.poll l reports accepting).work ≤
      s.work + (2 + 16 * reports.length + if accepting then 2 else 0) := by
  obtain ⟨⟨hl, -, -⟩, phase, -⟩ := en
  let q : LoopState :=
    { s.loops l with
      phase := .handling
      active := reports.filterMap fun r => s.pointee l r.1
      accepting := accepting }
  have hset : (s.setLoop l q).work + (s.loops l).work = s.work + q.work := work_setLoop hl
  have hpoll : (s.poll l reports accepting).work = (s.setLoop l q).work := rfl
  rw [← hpoll] at hset
  have hlength : (reports.filterMap fun r => s.pointee l r.1).length ≤ reports.length :=
    List.length_filterMap_le ..
  simp only [LoopState.work, phase, LoopPhase.work, h.active_nil phase, List.length_nil, q] at hset
  omega

theorem work_accepted (hl : 0 < s.size) (haccepting : (s.loops 0).accepting = true) :
    s.accepted.work + 2 = s.work := by
  have hset : s.accepted.work + (s.loops 0).work = s.work +
      LoopState.work { s.loops 0 with accepting := false } := work_setLoop hl
  simp only [LoopState.work, haccepting, if_true, Bool.false_eq_true, if_false] at hset
  omega

theorem work_taken {rest : List ConnId} (hl : l < s.size)
    (hactive : (s.loops l).active = c :: rest) : (s.taken l rest).work + 16 = s.work := by
  have hset : (s.taken l rest).work + (s.loops l).work = s.work +
      LoopState.work { s.loops l with active := rest } := work_setLoop hl
  simp only [LoopState.work, hactive, List.length_cons] at hset
  omega

theorem work_swapped (h : Wired s) (hl : l < s.size) (phase : (s.loops l).phase = .handling) :
    (s.swapped l).work + 1 = s.work := by
  have hset : (s.swapped l).work + (s.loops l).work = s.work + LoopState.work
      { s.loops l with
        phase := .functors
        funcs := (s.loops l).queue
        batch := (s.loops l).queue
        queue := [] } := work_setLoop hl
  simp only [LoopState.work, phase, LoopPhase.work, h.batch_nil phase, List.map_nil,
    List.sum_nil] at hset
  omega

theorem work_batchEnded (hl : l < s.size) (phase : (s.loops l).phase = .functors) :
    (s.batchEnded l).work + 1 = s.work := by
  have hset : (s.batchEnded l).work + (s.loops l).work = s.work +
      LoopState.work { s.loops l with phase := .polling, funcs := [] } := work_setLoop hl
  simp only [LoopState.work, phase, LoopPhase.work] at hset
  omega

/-- What a step of a loop towards its next poll takes, it or an action before it has brought. -/
theorem Step.work (h : Wired s) (hstep : Step s a s') :
    (if a.isTurn then 1 else 0) + s'.work ≤ s.work + a.causes := by
  cases hstep with
  | poke reads | hold conn alive | drop idle held | destroy hd =>
      exact Nat.le_of_eq (Nat.zero_add _)
  | poll en =>
      have hpolled := work_polled h en
      simp only [Action.isTurn, Action.causes, Bool.false_eq_true, if_false]
      omega
  | @call _ c b x t y pc own conn held hcalled view =>
      have hput := work_put (c := c) (y := y) (h.known c x conn).2.2
      have hle := call_work own view.2
      have hturn : a.isTurn = false := by
        cases a <;> first | rfl | simp [Action.own] at own
      simp only [hturn, Bool.false_eq_true, if_false, work_setPc]
      omega
  | @acceptHere sockfd en base =>
      obtain ⟨⟨hl, -, hframes⟩, -, haccepting, -⟩ := en
      have haccepted := work_accepted hl haccepting
      have henter := work_enter (s := s.accepted.enlist sockfd) (l := 0) hl s.nextConnId
        [.connectEstablished]
      simp only [enlist_loops, accepted_loops, if_true, hframes, work_enlist, List.map_nil,
        List.sum_nil, List.map_singleton, List.sum_singleton, Frame.work] at henter
      simp only [Action.isTurn, Action.causes, if_true]
      omega
  | @accept sockfd en other =>
      obtain ⟨⟨hl, -, -⟩, -, haccepting, -⟩ := en
      have haccepted := work_accepted hl haccepting
      have hpush := work_push (s := s.accepted.enlist sockfd)
        (f := .connectEstablished s.nextConnId) h.getNextLoop.1
      simp only [work_enlist, Functor.work] at hpush
      simp only [Action.isTurn, Action.causes, if_true]
      omega
  | @handleEvent l c x rest idle phase active alive conn =>
      have htaken := work_taken (s := s.handled c x) idle.1 active
      have henter := work_enter (s := (s.handled c x).taken l rest) (l := l) idle.1 c
        Ctx.handelEventWithGuard
      simp only [taken_loops, handled_loops, if_true, idle.2.2, List.map_nil, List.sum_nil,
        work_handled] at henter htaken
      have hframes : (Ctx.handelEventWithGuard.map Frame.work).sum = 15 := rfl
      simp only [Action.isTurn, Action.causes, if_true]
      omega
  | @frame l io c f rest x y fs lt pc inside frames conn hf hrun =>
      have hran := work_ran (h.inside_loop inside frames conn) lt (Ctx.runFrame_local hrun) c
        (fs ++ rest)
      have hless : y.pending.length + (fs.map Frame.work).sum + 1 ≤ 0 + f.work :=
        Ctx.runFrame_work hrun
      simp only [frames, List.map_cons, List.sum_cons, List.map_append, List.sum_append] at hran
      simp only [Action.isTurn, Action.causes, if_true]
      omega
  | @closeHere io c rest x lt pc inside frames conn hrun =>
      have hran := work_ran (h.inside_loop inside frames conn) lt (Ctx.runFrame_local hrun) c rest
      have hpush := work_push (s := (((s.put c x ((s.ctx x).record .closeCallback)).enter 0 c
        rest).record (.removeConnection c)).erased c (.removeConnectionInLoop c))
        (f := .connectDestoryed c) (h.known c x conn).2.2
      have hnone : ((s.ctx x).record .closeCallback).pending.length = 0 := rfl
      simp only [frames, List.map_cons, List.sum_cons, Frame.work, hnone] at hran
      simp only [work_erased, work_record, Functor.work] at hpush
      simp only [Action.isTurn, Action.causes, if_true]
      omega
  | @close l io c rest x other lt pc inside frames conn hrun =>
      have hran := work_ran (h.inside_loop inside frames conn) lt (Ctx.runFrame_local hrun) c rest
      have hpush := work_push (s := ((s.put c x ((s.ctx x).record .closeCallback)).enter l c
        rest).record (.removeConnection c)) (l := 0) (f := .removeConnectionInLoop c) h.size
      have hnone : ((s.ctx x).record .closeCallback).pending.length = 0 := rfl
      simp only [frames, List.map_cons, List.sum_cons, Frame.work, hnone] at hran
      simp only [work_record, Functor.work] at hpush
      simp only [Action.isTurn, Action.causes, if_true]
      omega
  | swap idle phase active =>
      have hswapped := work_swapped h idle.1 phase
      simp only [Action.isTurn, Action.causes, if_true]
      omega
  | @removal io c rest x idle phase batch alive conn =>
      have hpopped := work_popped idle.1 batch
      have hpush := work_push (s := (s.popped 0 rest).erased c (.removeConnectionInLoop c))
        (f := .connectDestoryed c) (h.known c x conn).2.2
      simp only [work_erased, Functor.work] at hpush hpopped
      simp only [Action.isTurn, Action.causes, if_true]
      omega
  | @functor l io f rest x y fs idle phase batch hf alive conn hrun =>
      have hpopped := work_popped idle.1 batch
      have hlocal : Ctx.Local ((s.popped l rest).ctx x) y := by
        rw [ctx_popped]
        exact Ctx.runFunctor_local hrun
      have hran := work_ran (s := s.popped l rest) (h.batch_loop batch hf conn) idle.1 hlocal
        f.conn fs
      have hless : y.pending.length + (fs.map Frame.work).sum + 1 ≤ 0 + f.work :=
        Ctx.runFunctor_work hrun
      simp only [popped_loops, if_true, idle.2.2, List.map_nil, List.sum_nil] at hran
      simp only [Action.isTurn, Action.causes, if_true]
      omega
  | batchEnd idle phase batch =>
      have hended := work_batchEnded idle.1 phase
      simp only [Action.isTurn, Action.causes, if_true]
      omega
  | @release c x destroyed listed conn =>
      have hpush := work_push (s := s.erased c (.released c)) (f := .connectDestoryed c)
        (h.known c x conn).2.2
      simp only [work_erased, Functor.work] at hpush
      simp only [Action.isTurn, Action.causes, Bool.false_eq_true, if_false]
      omega

theorem work_init (h : lts.init s) : s.work = 0 := by
  refine Finset.sum_eq_zero ?_
  intro l _
  rw [h.loops l]
  rfl

theorem path_work (h : lts.Reachable s) {as : List Action} (hp : lts.Path s as s') :
    as.countP Action.isTurn + s'.work ≤ s.work + (as.map Action.causes).sum :=
  hp.paid (fun _ _ _ hm hstep => (step_cases (wired_of_reachable hm) hstep).work
    (wired_of_reachable hm)) h

/-- In every run the steps that loops take towards their next poll are no more than what the
polls, the calls and the destructor are the cause of: two for a poll, sixteen for an event, two
for a connection to accept or a `send`, one for a `shutdown` and three for a connection that is
let go.  What is left of that bounds the work there is, and as long as nothing more is polled or
called, this bounds the steps that are still to come. -/
theorem turns_bounded {as : List Action} (h : lts.Run as s) :
    as.countP Action.isTurn + s.work ≤ (as.map Action.causes).sum ∧
    ∀ bs s', lts.Path s bs s' → (∀ a ∈ bs, a.causes = 0) →
      bs.countP Action.isTurn + s'.work ≤ s.work := by
  have hs : lts.Reachable s := ⟨as, h⟩
  obtain ⟨s₀, h0, hp⟩ := h
  refine ⟨?_, ?_⟩
  · have hpaid := path_work (.of_init h0) hp
    rw [work_init h0, Nat.zero_add] at hpaid
    exact hpaid
  · intro bs s' hbs hnone
    have hpaid := path_work hs hbs
    have hzero : (bs.map Action.causes).sum = 0 := by
      refine List.sum_eq_zero ?_
      intro k hk
      obtain ⟨a, ha, rfl⟩ := List.mem_map.mp hk
      exact hnone a ha
    rwa [hzero, Nat.add_zero] at hpaid

/-- Connection 1 has been closed by its peer, and its removal waits on the base loop. -/
theorem turns_bounded_closing : ∃ as s, lts.Run as s ∧ s.todo 0 = [.removeConnectionInLoop 1] ∧
    as.countP Action.isTurn + 4 ≤ (as.map Action.causes).sum := by
  obtain ⟨s, ⟨as, hrun⟩, htodo, hwork⟩ := exists_of_run (fun _ _ => True)
    (connecting ++ closing)
    (fun s => s.todo 0 = [Functor.removeConnectionInLoop 1] ∧ s.work = 4) (by decide +kernel)
  have hpaid := (turns_bounded hrun.of_restrict).1
  rw [hwork] at hpaid
  exact ⟨as, s, hrun.of_restrict, htodo, hpaid⟩

end TcpServer

end Muduo
