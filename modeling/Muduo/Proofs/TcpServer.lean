/-
The steps of `TcpServer`, and how its parts refer to each other.

`Step` says once what each action does; every invariant of the server is a case analysis on
it.  `view` is the server as one of its connections sees it, which is a state of
`ConnSystem`; a call of one of the connection's members is the step of that system with the
same name.
-/
import Muduo.Proofs.ConnSystem
import Muduo.Proofs.Marks
import Muduo.Proofs.Names

namespace Muduo

def Functor.isRemoval : Functor → Bool
  | .removeConnectionInLoop _ => true
  | _ => false

/-- A functor of the connection's own. -/
def Functor.isOf (c : ConnId) (f : Functor) : Bool := f.conn == c && !f.isRemoval

namespace TcpServer

variable {s s' : TcpServer}

/-- The server without its own record of the connection. -/
def erased (s : TcpServer) (c : ConnId) (e : ServerEntry) : TcpServer :=
  { s.record e with connections := s.connections.erase c }

/-- The connection that `newConnection` makes. -/
def newAccepted (s : TcpServer) (sockfd : Fd) : Accepted where
  loop := s.getNextLoop.1
  conn := TcpConnection.new s.nextConnId sockfd s.writeCompleteCallback
  pcs _ := .idle
  log := []

/-- The server with its own record of it. -/
def enlist (s : TcpServer) (sockfd : Fd) : TcpServer :=
  { s with
    next := s.getNextLoop.2
    nextConnId := s.nextConnId + 1
    connections := insert s.nextConnId s.connections
    conns := Function.update s.conns s.nextConnId (some (s.newAccepted sockfd)) }

/-- A connection after its loop's `poll`. -/
def reported (s : TcpServer) (l : LoopId) (reports : List (Fd × Events)) (c : ConnId)
    (x : Accepted) : Accepted :=
  match reports.find? fun r => s.pointee l r.1 = some c with
  | some r => { x with conn := { x.conn with channel := { x.conn.channel with revents := r.2 } } }
  | none => x

/-- The acceptor's channel is handled. -/
def accepted (s : TcpServer) : TcpServer := s.setLoop 0 { s.loops 0 with accepting := false }

/-- `doPendingFunctors` swaps the queue out. -/
def swapped (s : TcpServer) (l : LoopId) : TcpServer :=
  s.setLoop l
    { s.loops l with
      phase := .functors
      funcs := (s.loops l).queue
      batch := (s.loops l).queue
      queue := [] }

/-- It takes the next functor. -/
def popped (s : TcpServer) (l : LoopId) (rest : List Functor) : TcpServer :=
  s.setLoop l { s.loops l with batch := rest }

/-- It returns. -/
def batchEnded (s : TcpServer) (l : LoopId) : TcpServer :=
  s.setLoop l { s.loops l with phase := .polling, funcs := [] }

/-- The loop takes the next of its active channels. -/
def taken (s : TcpServer) (l : LoopId) (rest : List ConnId) : TcpServer :=
  s.setLoop l { s.loops l with active := rest }

/-- `Channel::handleEvent` is entered, as the log has it. -/
def handled (s : TcpServer) (c : ConnId) (x : Accepted) : TcpServer :=
  s.setConn c { x with log := x.log ++ [.handleEvent x.conn.channel.revents] }

/-! ### What an update leaves alone -/

section Updates

variable {l l' : LoopId} {c c' : ConnId} {x : Accepted} {y : Ctx} {t : Tid} {pc : CallPc}
  {f : Functor} {fs : List Frame} {q : List Functor} {cs : List ConnId}

theorem setLoop_loops {p : LoopState} :
    (s.setLoop l p).loops l' = if l' = l then p else s.loops l' := by
  simp [setLoop, Function.update_apply]

@[simp] theorem accepted_threadId : (s.accepted).threadId = s.threadId := rfl
@[simp] theorem accepted_connections : (s.accepted).connections = s.connections := rfl
@[simp] theorem accepted_conns : (s.accepted).conns = s.conns := rfl
@[simp] theorem accepted_mem : (s.accepted).mem = s.mem := rfl
@[simp] theorem accepted_log : (s.accepted).log = s.log := rfl

@[simp] theorem swapped_threadId : (s.swapped l).threadId = s.threadId := rfl
@[simp] theorem swapped_size : (s.swapped l).size = s.size := rfl
@[simp] theorem swapped_connections : (s.swapped l).connections = s.connections := rfl
@[simp] theorem swapped_mem : (s.swapped l).mem = s.mem := rfl
@[simp] theorem swapped_log : (s.swapped l).log = s.log := rfl

@[simp] theorem popped_threadId : (s.popped l q).threadId = s.threadId := rfl
@[simp] theorem popped_connections : (s.popped l q).connections = s.connections := rfl
@[simp] theorem popped_conns : (s.popped l q).conns = s.conns := rfl
@[simp] theorem popped_mem : (s.popped l q).mem = s.mem := rfl
@[simp] theorem popped_log : (s.popped l q).log = s.log := rfl

@[simp] theorem batchEnded_threadId : (s.batchEnded l).threadId = s.threadId := rfl
@[simp] theorem batchEnded_connections : (s.batchEnded l).connections = s.connections := rfl
@[simp] theorem batchEnded_mem : (s.batchEnded l).mem = s.mem := rfl
@[simp] theorem batchEnded_log : (s.batchEnded l).log = s.log := rfl

@[simp] theorem taken_threadId : (s.taken l cs).threadId = s.threadId := rfl
@[simp] theorem taken_connections : (s.taken l cs).connections = s.connections := rfl
@[simp] theorem taken_conns : (s.taken l cs).conns = s.conns := rfl
@[simp] theorem taken_mem : (s.taken l cs).mem = s.mem := rfl
@[simp] theorem taken_log : (s.taken l cs).log = s.log := rfl

@[simp] theorem push_threadId : (s.push l f).threadId = s.threadId := rfl
@[simp] theorem push_connections : (s.push l f).connections = s.connections := rfl
@[simp] theorem push_conns : (s.push l f).conns = s.conns := rfl
@[simp] theorem push_mem : (s.push l f).mem = s.mem := rfl
@[simp] theorem push_log : (s.push l f).log = s.log := rfl

@[simp] theorem enter_threadId : (s.enter l c fs).threadId = s.threadId := rfl
@[simp] theorem enter_connections : (s.enter l c fs).connections = s.connections := rfl
@[simp] theorem enter_conns : (s.enter l c fs).conns = s.conns := rfl
@[simp] theorem enter_mem : (s.enter l c fs).mem = s.mem := rfl
@[simp] theorem enter_log : (s.enter l c fs).log = s.log := rfl

@[simp] theorem put_threadId : (s.put c x y).threadId = s.threadId := rfl
@[simp] theorem put_connections : (s.put c x y).connections = s.connections := rfl
@[simp] theorem put_mem : (s.put c x y).mem = s.mem := rfl
@[simp] theorem put_log : (s.put c x y).log = s.log := rfl

@[simp] theorem put_conns : (s.put c x y).conns c' =
    if c' = c then some { x with conn := y.conn, log := y.log } else s.conns c' := by
  simp [put, setConn, setLoop, Function.update_apply]

@[simp] theorem put_loops : (s.put c x y).loops l =
    { s.loops l with
      poller := if l = x.loop then y.poller else (s.loops l).poller
      queue := (s.loops l).queue ++ if l = x.loop then y.pending else [] } := by
  simp only [put, setConn, setLoop_loops]
  split
  · next h => rw [h]
  · rw [List.append_nil]

@[simp] theorem push_loops : (s.push l f).loops l' =
    { s.loops l' with queue := (s.loops l').queue ++ if l' = l then [f] else [] } := by
  simp only [push, setLoop_loops]
  split
  · next h => rw [h]
  · rw [List.append_nil]

@[simp] theorem enter_loops : (s.enter l c fs).loops l' =
    { s.loops l' with
      inside := if l' = l then c else (s.loops l').inside
      frames := if l' = l then fs else (s.loops l').frames } := by
  simp only [enter, setLoop_loops]
  split
  · next h => rw [h]
  · rfl

@[simp] theorem accepted_nextConnId : s.accepted.nextConnId = s.nextConnId := rfl
@[simp] theorem accepted_newAccepted {fd : Fd} :
    s.accepted.newAccepted fd = s.newAccepted fd := rfl

@[simp] theorem accepted_loops : s.accepted.loops l =
    { s.loops l with accepting := if l = 0 then false else (s.loops l).accepting } := by
  simp only [accepted, setLoop_loops]
  split
  · next h => rw [h]
  · rfl

@[simp] theorem swapped_loops : (s.swapped l).loops l' =
    { s.loops l' with
      phase := if l' = l then .functors else (s.loops l').phase
      funcs := if l' = l then (s.loops l).queue else (s.loops l').funcs
      batch := if l' = l then (s.loops l).queue else (s.loops l').batch
      queue := if l' = l then [] else (s.loops l').queue } := by
  simp only [swapped, setLoop_loops]
  split
  · next h => rw [h]
  · rfl

@[simp] theorem popped_loops : (s.popped l q).loops l' =
    { s.loops l' with batch := if l' = l then q else (s.loops l').batch } := by
  simp only [popped, setLoop_loops]
  split
  · next h => rw [h]
  · rfl

@[simp] theorem batchEnded_loops : (s.batchEnded l).loops l' =
    { s.loops l' with
      phase := if l' = l then .polling else (s.loops l').phase
      funcs := if l' = l then [] else (s.loops l').funcs } := by
  simp only [batchEnded, setLoop_loops]
  split
  · next h => rw [h]
  · rfl

@[simp] theorem taken_loops : (s.taken l cs).loops l' =
    { s.loops l' with active := if l' = l then cs else (s.loops l').active } := by
  simp only [taken, setLoop_loops]
  split
  · next h => rw [h]
  · rfl

@[simp] theorem handled_loops : (s.handled c x).loops = s.loops := rfl
@[simp] theorem handled_connections : (s.handled c x).connections = s.connections := rfl
@[simp] theorem handled_log : (s.handled c x).log = s.log := rfl

@[simp] theorem handled_conns : (s.handled c x).conns c' = if c' = c then
    some { x with log := x.log ++ [.handleEvent x.conn.channel.revents] } else s.conns c' := by
  simp only [handled, setConn, Function.update_apply]

@[simp] theorem setPc_loops : (s.setPc c t pc).loops = s.loops := rfl
@[simp] theorem setPc_connections : (s.setPc c t pc).connections = s.connections := rfl
@[simp] theorem setPc_log : (s.setPc c t pc).log = s.log := rfl

@[simp] theorem setPc_conns : (s.setPc c t pc).conns c' = if c' = c then
    (s.conns c).map fun x => { x with pcs := Function.update x.pcs t pc } else s.conns c' := by
  simp only [setPc, Function.update_apply]

@[simp] theorem record_loops {e : ServerEntry} : (s.record e).loops = s.loops := rfl
@[simp] theorem record_conns {e : ServerEntry} : (s.record e).conns = s.conns := rfl
@[simp] theorem record_connections {e : ServerEntry} :
    (s.record e).connections = s.connections := rfl
@[simp] theorem record_log {e : ServerEntry} : (s.record e).log = s.log ++ [e] := rfl

@[simp] theorem erased_loops {e : ServerEntry} : (s.erased c e).loops = s.loops := rfl
@[simp] theorem erased_conns {e : ServerEntry} : (s.erased c e).conns = s.conns := rfl
@[simp] theorem erased_log {e : ServerEntry} : (s.erased c e).log = s.log ++ [e] := rfl
@[simp] theorem erased_connections {e : ServerEntry} :
    (s.erased c e).connections = s.connections.erase c := rfl

@[simp] theorem enlist_loops {fd : Fd} : (s.enlist fd).loops = s.loops := rfl
@[simp] theorem enlist_log {fd : Fd} : (s.enlist fd).log = s.log := rfl
@[simp] theorem enlist_connections {fd : Fd} :
    (s.enlist fd).connections = insert s.nextConnId s.connections := rfl

@[simp] theorem enlist_conns {fd : Fd} : (s.enlist fd).conns c =
    if c = s.nextConnId then some (s.newAccepted fd) else s.conns c := by
  simp only [enlist, Function.update_apply]

@[simp] theorem poll_loops {reports : List (Fd × Events)} {b : Bool} :
    (s.poll l reports b).loops l' =
      { s.loops l' with
        phase := if l' = l then .handling else (s.loops l').phase
        active := if l' = l then reports.filterMap fun r => s.pointee l r.1
          else (s.loops l').active
        accepting := if l' = l then b else (s.loops l').accepting } := by
  show (s.setLoop l _).loops l' = _
  rw [setLoop_loops]
  split
  · next h => rw [h]
  · rfl

@[simp] theorem poll_conns {reports : List (Fd × Events)} {b : Bool} :
    (s.poll l reports b).conns c = (s.conns c).map (s.reported l reports c) := rfl

@[simp] theorem reported_loop {reports : List (Fd × Events)} :
    (s.reported l reports c x).loop = x.loop := by
  unfold reported
  split <;> rfl

@[simp] theorem reported_pcs {reports : List (Fd × Events)} :
    (s.reported l reports c x).pcs = x.pcs := by
  unfold reported
  split <;> rfl

@[simp] theorem reported_log {reports : List (Fd × Events)} :
    (s.reported l reports c x).log = x.log := by
  unfold reported
  split <;> rfl

@[simp] theorem reported_id {reports : List (Fd × Events)} :
    (s.reported l reports c x).conn.channel.id = x.conn.channel.id := by
  unfold reported
  split <;> rfl

@[simp] theorem reported_fd {reports : List (Fd × Events)} :
    (s.reported l reports c x).conn.channel.fd = x.conn.channel.fd := by
  unfold reported
  split <;> rfl

@[simp] theorem poll_threadId {reports : List (Fd × Events)} {b : Bool} :
    (s.poll l reports b).threadId = s.threadId := rfl
@[simp] theorem poll_connections {reports : List (Fd × Events)} {b : Bool} :
    (s.poll l reports b).connections = s.connections := rfl
@[simp] theorem poll_mem {reports : List (Fd × Events)} {b : Bool} :
    (s.poll l reports b).mem = s.mem := rfl
@[simp] theorem poll_log {reports : List (Fd × Events)} {b : Bool} :
    (s.poll l reports b).log = s.log := rfl

end Updates

/-! ### The server as a connection sees it -/

/-- The state of the connection's own system.  The functors and the frames of the loop's
other connections are none of its business. -/
def view (s : TcpServer) (c : ConnId) (x : Accepted) : ConnSystem where
  loopTid := s.threadId x.loop
  conn := x.conn
  poller := (s.loops x.loop).poller
  log := x.log
  queue := (s.loops x.loop).queue.filter (Functor.isOf c)
  phase := (s.loops x.loop).phase
  active := decide (c ∈ (s.loops x.loop).active)
  batch := (s.loops x.loop).batch.filter (Functor.isOf c)
  frames := if (s.loops x.loop).inside = c then (s.loops x.loop).frames else []
  pcs := x.pcs
  mem := s.mem

/-- The action of a connection's own system behind a call of one of its members. -/
def Action.own : Action → Option (ConnId × ConnSystem.Action)
  | .send t c message len => some (c, .send t message len)
  | .sendRun t c w => some (c, .sendRun t w)
  | .shutdown t c => some (c, .shutdown t)
  | .shutdownStore t c => some (c, .shutdownStore t)
  | .shutdownRun t c => some (c, .shutdownRun t)
  | .setWriteCompleteCallback c isSet => some (c, .setWriteCompleteCallback isSet)
  | .setHighWaterMarkCallback c isSet highWatermark =>
      some (c, .setHighWaterMarkCallback isSet highWatermark)
  | _ => none

/-- What a member called by a thread leaves: user callbacks, and, when the thread had begun
a call before, the functor of that call. -/
structure Called (x : Accepted) (t : Tid) (z y : Ctx) : Prop where
  id : y.conn.channel.id = z.conn.channel.id
  fd : y.conn.channel.fd = z.conn.channel.fd
  marks : marks y.log = marks z.log
  pending : ∃ q, y.pending = z.pending ++ q ∧ ∀ f ∈ q, f.conn = z.conn.channel.id ∧
    (f.isUserCallback = true ∨ (f.owns = false ∧ x.pcs t ≠ .idle))
  interest : y.poller.Adds z.poller z.conn.channel.id
  elsewhere : Ctx.Elsewhere z y

section Called

variable {x : Accepted} {t : Tid} {y : Ctx} {pc : CallPc}

namespace Called

variable {z : Ctx}

theorem of_named (hn : Ctx.Named z y) (hl : Ctx.Local z y)
    (hm : Muduo.marks y.log = Muduo.marks z.log) : Called x t z y := by
  obtain ⟨q, hq, hall⟩ := hn.pending
  refine ⟨hl.id, hl.fd, hm, ⟨q, hq, ?_⟩, hn.interest, hl.elsewhere⟩
  intro f hf
  obtain ⟨hkind, hconn⟩ := hall f hf
  exact ⟨hconn, .inl hkind⟩

theorem refl (z : Ctx) : Called x t z z := of_named (.refl z) (.refl z) rfl

/-- An entry that is no mark changes nothing of it. -/
theorem record {e : Entry} (h : Called x t z y) (he : e.isMark = false) :
    Called x t z (y.record e) := by
  have hnil : Muduo.marks [e] = [] := marks_eq_nil (by simpa using he)
  refine ⟨h.id, h.fd, ?_, h.pending, h.interest, h.elsewhere⟩
  rw [Ctx.record_log, marks_append, hnil, List.append_nil]
  exact h.marks

theorem queueInLoop {f : Functor} (hconn : f.conn = z.conn.channel.id) (howns : f.owns = false)
    (hpc : x.pcs t ≠ .idle) : Called x t z (z.queueInLoop f) := by
  refine ⟨rfl, rfl, rfl, ⟨[f], rfl, ?_⟩, .refl _ _, fun _ _ => ⟨rfl, rfl⟩⟩
  intro g hg
  rw [List.mem_singleton] at hg
  rw [hg]
  exact ⟨hconn, .inr ⟨howns, hpc⟩⟩

theorem send {mem : Mem} {message len : Nat}
    (h : z.send t mem message len = .ok (y, pc)) : Called x t z y := by
  obtain ⟨bytes, -, h⟩ := Except.bind_eq_ok.mp h
  rw [Except.pure_eq_ok] at h
  split at h
  · rw [Prod.mk.injEq] at h
    rw [← h.1]
    exact (refl z).record rfl
  · rw [Prod.mk.injEq] at h
    rw [← h.1]
    exact refl z

theorem sendRun {b : Bool} {mem : Mem} {call : SendCall} {w : WriteResult}
    (hpc : x.pcs t ≠ .idle) (h : z.sendRun b mem call w = .ok y) : Called x t z y := by
  obtain ⟨m, hm, h⟩ := Except.bind_eq_ok.mp h
  rw [Except.pure_eq_ok] at h
  rw [← h]
  refine record ?_ rfl
  cases b with
  | false =>
      simp only [Ctx.dispatchSend, Bool.false_eq_true, if_false, Except.ok.injEq] at hm
      rw [← hm]
      exact queueInLoop rfl rfl hpc
  | true =>
      simp only [Ctx.dispatchSend, if_true] at hm
      have hout := Ctx.sendInLoop_outputStep hm
      exact of_named (.sendInLoop hm) hout.local hout.marks

theorem shutdown {u : Tid} : Called x t z (z.shutdown u).1 := by
  simp only [Ctx.shutdown]
  split
  · exact (refl z).record rfl
  · exact (refl z).record rfl

theorem shutdownStore : Called x t z z.shutdownStore := by
  refine ⟨rfl, rfl, ?_, ⟨[], by simp [Ctx.shutdownStore], by simp⟩, .refl _ _,
    fun _ _ => ⟨rfl, rfl⟩⟩
  have hnil : Muduo.marks [.stored .kDisconnecting] = [] := rfl
  rw [Ctx.shutdownStore, Ctx.setState_log, marks_append, hnil, List.append_nil]

theorem shutdownRun {b : Bool} (hpc : x.pcs t ≠ .idle) : Called x t z (z.shutdownRun b) := by
  cases b with
  | false => exact queueInLoop rfl rfl hpc
  | true =>
      exact of_named .shutdownInLoop Ctx.shutdownInLoop_outputStep.local
        Ctx.shutdownInLoop_outputStep.marks

end Called

end Called

/-- What an action can do. -/
inductive Step (s : TcpServer) : Action → TcpServer → Prop
  | acceptHere {sockfd : Fd} (en : s.Enabled (.accept sockfd)) (base : s.getNextLoop.1 = 0) :
      Step s (.accept sockfd)
        ((s.accepted.enlist sockfd).enter 0 s.nextConnId [.connectEstablished])
  | accept {sockfd : Fd} (en : s.Enabled (.accept sockfd)) (other : s.getNextLoop.1 ≠ 0) :
      Step s (.accept sockfd)
        ((s.accepted.enlist sockfd).push s.getNextLoop.1 (.connectEstablished s.nextConnId))
  | call {a c b x t y pc} (own : a.own = some (c, b)) (conn : s.conns c = some x)
      (held : (t, c) ∈ s.held) (h : Called x t (s.ctx x) y)
      (view : ConnSystem.lts.step (s.view c x) b (((s.view c x).put y).setPc t pc)) :
      Step s a ((s.put c x y).setPc c t pc)
  | poke {p b} (reads : ∀ h ∈ s.held, ∀ x ∈ s.conns h.2, ¬ (x.pcs h.1).Reads p) :
      Step s (.poke p b) { s with mem := s.mem.poke p b }
  | hold {t c x} (conn : s.conns c = some x) (alive : s.Alive c) :
      Step s (.hold t c) { s with held := (t, c) :: s.held }
  | drop {t c} (idle : s.Idle t) (held : (t, c) ∈ s.held) :
      Step s (.drop t c) { s with held := s.held.erase (t, c) }
  | poll {l reports accepting} (en : s.Enabled (.poll l reports accepting)) :
      Step s (.poll l reports accepting) (s.poll l reports accepting)
  | handleEvent {l c x rest} (idle : s.LoopIdle l) (phase : (s.loops l).phase = .handling)
      (active : (s.loops l).active = c :: rest) (alive : s.Alive c) (conn : s.conns c = some x) :
      Step s (.handleEvent l c)
        (((s.handled c x).taken l rest).enter l c Ctx.handelEventWithGuard)
  | frame {l io c f rest x y fs} (lt : l < s.size) (pc : s.Idle (s.threadId l))
      (inside : (s.loops l).inside = c) (frames : (s.loops l).frames = f :: rest)
      (conn : s.conns c = some x) (hf : f ≠ .closeCallback)
      (h : (s.ctx x).runFrame io f = .ok (y, fs)) :
      Step s (.frame l io) ((s.put c x y).enter l c (fs ++ rest))
  | closeHere {io c rest x} (lt : 0 < s.size) (pc : s.Idle (s.threadId 0))
      (inside : (s.loops 0).inside = c) (frames : (s.loops 0).frames = .closeCallback :: rest)
      (conn : s.conns c = some x)
      (h : (s.ctx x).runFrame io .closeCallback = .ok ((s.ctx x).record .closeCallback, [])) :
      Step s (.frame 0 io)
        (((((s.put c x ((s.ctx x).record .closeCallback)).enter 0 c rest).record
          (.removeConnection c)).erased c (.removeConnectionInLoop c)).push x.loop
            (.connectDestoryed c))
  | close {l io c rest x} (other : l ≠ 0) (lt : l < s.size) (pc : s.Idle (s.threadId l))
      (inside : (s.loops l).inside = c) (frames : (s.loops l).frames = .closeCallback :: rest)
      (conn : s.conns c = some x)
      (h : (s.ctx x).runFrame io .closeCallback = .ok ((s.ctx x).record .closeCallback, [])) :
      Step s (.frame l io)
        ((((s.put c x ((s.ctx x).record .closeCallback)).enter l c rest).record
          (.removeConnection c)).push 0 (.removeConnectionInLoop c))
  | swap {l} (idle : s.LoopIdle l) (phase : (s.loops l).phase = .handling)
      (active : (s.loops l).active = []) :
      Step s (.swap l) (s.swapped l)
  | removal {io c rest x} (idle : s.LoopIdle 0) (phase : (s.loops 0).phase = .functors)
      (batch : (s.loops 0).batch = .removeConnectionInLoop c :: rest) (alive : s.Alive c)
      (conn : s.conns c = some x) :
      Step s (.functor 0 io)
        (((s.popped 0 rest).erased c (.removeConnectionInLoop c)).push x.loop
          (.connectDestoryed c))
  | functor {l io f rest x y fs} (idle : s.LoopIdle l) (phase : (s.loops l).phase = .functors)
      (batch : (s.loops l).batch = f :: rest) (hf : f.isRemoval = false)
      (alive : s.Alive f.conn) (conn : s.conns f.conn = some x)
      (h : (s.ctx x).runFunctor s.mem io f = .ok (y, fs)) :
      Step s (.functor l io)
        (((s.popped l rest).put f.conn x y).enter l f.conn fs)
  | batchEnd {l} (idle : s.LoopIdle l) (phase : (s.loops l).phase = .functors)
      (batch : (s.loops l).batch = []) :
      Step s (.batchEnd l) (s.batchEnded l)
  | destroy (h : .destroy ∉ s.log) : Step s .destroy (s.record .destroy)
  | release {c x} (destroyed : .destroy ∈ s.log) (listed : c ∈ s.connections)
      (conn : s.conns c = some x) :
      Step s (.release c) ((s.erased c (.released c)).push x.loop (.connectDestoryed c))

end TcpServer

end Muduo
