/-
One connection, the loop it belongs to, and the threads that use it.

Every load and store of `m_state` that another thread can come between is a step of its
own, and so is every push to the loop's queue.  A thread inside `send` or `shutdown` is
at a `CallPc`.  The loop thread also has the frames of the handlers it is inside of; user
code called from a handler, a functor or another channel may call `send` and `shutdown`
between any two of them.

The loop goes round as `EventLoop::loop` does: `poll`, then the active channels, then the
functors, swapped out of the queue as one batch.  The queue, the batch and the active
channels are shown as far as they concern this connection; what the loop's other
connections do to the poller, at their own descriptors, is the action `others`.
-/
import Muduo.Lib.Lts
import Muduo.TcpConnection

namespace Muduo

/-- Where a loop is in the body of `EventLoop::loop`. -/
inductive LoopPhase
  | polling
  /-- In the `for` over `m_activeChannels`. -/
  | handling
  /-- In `doPendingFunctors`, after the swap. -/
  | functors
  deriving DecidableEq, Repr

structure ConnSystem where
  /-- `EventLoop::m_threadId` of the connection's loop. -/
  loopTid : Tid
  conn : TcpConnection
  poller : EpollPoller
  log : List Entry
  /-- `m_pendingFunctors`. -/
  queue : List Functor
  phase : LoopPhase
  /-- The connection's channel is in `m_activeChannels` and not handled yet. -/
  active : Bool
  /-- What is left of the batch in `doPendingFunctors`. -/
  batch : List Functor
  /-- What the loop thread has left of the handlers it is inside of. -/
  frames : List Frame
  pcs : Tid → CallPc
  mem : Mem

namespace ConnSystem

inductive Action
  /-- `send(message, len)` is called and loads `m_state`. -/
  | send (t : Tid) (message len : Nat)
  /-- The rest of that `send`. -/
  | sendRun (t : Tid) (w : WriteResult)
  /-- `shutdown()` is called and loads `m_state`. -/
  | shutdown (t : Tid)
  | shutdownStore (t : Tid)
  | shutdownRun (t : Tid)
  /-- The program writes to memory, or releases it. -/
  | poke (a : Nat) (b : Option Byte)
  | setWriteCompleteCallback (isSet : Bool)
  | setHighWaterMarkCallback (isSet : Bool) (highWatermark : Nat)
  /-- `TcpServer` queues `connectDestoryed`. -/
  | queueDestory
  /-- The loop's other connections have changed the poller. -/
  | others (poller : EpollPoller)
  /-- `epoll_wait` returns, reporting the channel or not. -/
  | poll (revents : Option Events)
  /-- `Channel::handleEvent`. -/
  | handleEvent
  /-- The loop thread runs its next frame. -/
  | frame (io : Io)
  /-- `doPendingFunctors` swaps the queue out. -/
  | swap
  /-- The next functor of the batch. -/
  | functor (io : Io)
  /-- `doPendingFunctors` returns. -/
  | batchEnd

variable (s : ConnSystem)

/-- What a member function sees. -/
def ctx : Ctx where
  conn := s.conn
  poller := s.poller
  pending := []
  log := s.log

/-- The system after a member function. -/
def put (x : Ctx) : ConnSystem :=
  { s with conn := x.conn, poller := x.poller, log := x.log, queue := s.queue ++ x.pending }

def setPc (t : Tid) (pc : CallPc) : ConnSystem :=
  { s with pcs := Function.update s.pcs t pc }

/-- The loop thread is in none of the connection's handlers, nor in a call of user code. -/
structure LoopIdle : Prop where
  pc : s.pcs s.loopTid = .idle
  frames : s.frames = []

/-- When an action can happen. -/
def Enabled : Action → Prop
  -- the message is memory the caller may read
  | .send t message len =>
      s.pcs t = .idle ∧ len < 2 ^ 64 ∧ ∃ bytes, s.mem.read message len = .ok bytes
  | .sendRun t _ => ∃ call, s.pcs t = .sending call
  | .shutdown t => s.pcs t = .idle
  | .shutdownStore t => s.pcs t = .shutdownSeen
  | .shutdownRun t => s.pcs t = .shutdownStored
  -- the arguments of a call stay as they are until it returns
  | .poke a _ => ∀ t call, s.pcs t = .sending call → ¬ Covers call.message call.len a
  | .setWriteCompleteCallback _ => True
  | .setHighWaterMarkCallback _ _ => True
  | .queueDestory => True
  | .others poller =>
      poller.channels s.conn.channel.fd = s.poller.channels s.conn.channel.fd ∧
      poller.interest s.conn.channel.fd = s.poller.interest s.conn.channel.fd
  | .poll revents => s.LoopIdle ∧ s.phase = .polling ∧ (revents.isSome →
      ∃ mask, s.poller.interest s.conn.channel.fd = some (s.conn.channel.id, mask))
  | .handleEvent => s.LoopIdle ∧ s.phase = .handling ∧ s.active = true
  | .frame _ => s.pcs s.loopTid = .idle ∧ s.frames ≠ []
  | .swap => s.LoopIdle ∧ s.phase = .handling ∧ s.active = false
  | .functor _ => s.LoopIdle ∧ s.phase = .functors ∧ s.batch ≠ []
  | .batchEnd => s.LoopIdle ∧ s.phase = .functors ∧ s.batch = []

/-- `epoll_wait` and `fillActiveChannels`, for this channel. -/
def poll : Option Events → ConnSystem
  | none => { s with phase := .handling }
  | some revents =>
      { s with
        phase := .handling
        active := true
        conn := { s.conn with channel := { s.conn.channel with revents := revents } } }

/-- `Channel::handleEvent`.  The connection is alive, so `m_tie.lock()` gives the guard. -/
def handleEvent : ConnSystem :=
  { s with
    active := false
    log := s.log ++ [.handleEvent s.conn.channel.revents]
    frames := Ctx.handelEventWithGuard }

def exec : Action → Except Fault ConnSystem
  | .send t message len => do
      let (x, pc) ← s.ctx.send t s.mem message len
      return (s.put x).setPc t pc
  | .sendRun t w =>
      match s.pcs t with
      | .sending call => do
          let x ← s.ctx.sendRun (t == s.loopTid) s.mem call w
          return (s.put x).setPc t .idle
      | _ => .ok s
  | .shutdown t => .ok ((s.put (s.ctx.shutdown t).1).setPc t (s.ctx.shutdown t).2)
  | .shutdownStore t => .ok ((s.put s.ctx.shutdownStore).setPc t .shutdownStored)
  | .shutdownRun t => .ok ((s.put (s.ctx.shutdownRun (t == s.loopTid))).setPc t .idle)
  | .poke a b => .ok { s with mem := s.mem.poke a b }
  | .setWriteCompleteCallback isSet =>
      .ok { s with conn := { s.conn with writeCompleteCallback := isSet } }
  | .setHighWaterMarkCallback isSet highWatermark =>
      .ok { s with conn := { s.conn with
        highWaterMarkCallback := isSet, highWaterMark := highWatermark } }
  | .queueDestory => .ok { s with queue := s.queue ++ [.connectDestoryed s.conn.channel.id] }
  | .others poller => .ok { s with poller := poller }
  | .poll revents => .ok (s.poll revents)
  | .handleEvent => .ok s.handleEvent
  | .frame io =>
      match s.frames with
      | f :: rest => do
          let (x, frames) ← s.ctx.runFrame io f
          return { s.put x with frames := frames ++ rest }
      | [] => .ok s
  | .swap => .ok { s with phase := .functors, batch := s.queue, queue := [] }
  | .functor io =>
      match s.batch with
      | f :: rest => do
          let (x, frames) ← s.ctx.runFunctor s.mem io f
          return { s.put x with batch := rest, frames := frames }
      | [] => .ok s
  | .batchEnd => .ok { s with phase := .polling }

/-- A connection as `TcpServer::newConnection` leaves it: its loop has been handed the
call of `connectEstablished`, and the loop's poller does not know its descriptor. -/
structure Init : Prop where
  conn : ∃ writeComplete, s.conn =
    TcpConnection.new s.conn.channel.id s.conn.channel.fd writeComplete
  channels : s.poller.channels s.conn.channel.fd = none
  interest : s.poller.interest s.conn.channel.fd = none
  handed : (s.queue = [.connectEstablished s.conn.channel.id] ∧ s.frames = []) ∨
    (s.queue = [] ∧ s.frames = [.connectEstablished])
  log : s.log = []
  active : s.active = false
  batch : s.batch = []
  pcs : ∀ t, s.pcs t = .idle

/-- The system: an enabled action that ends without a fault. -/
def lts : Lts ConnSystem Action where
  init := Init
  step s a s' := s.Enabled a ∧ s.exec a = .ok s'

end ConnSystem

end Muduo
