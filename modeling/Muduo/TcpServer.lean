/-
`TcpServer`, its loops and all its connections.

Loop 0 is the base loop, the others are the loops of the `EventLoopThreadPool`; the server
has been started.  A connection is known by the number `newConnection` gives it, which is
what its name and so its key in `connections_` is made of.  What a connection has is kept
after its object is gone, so that one can still say what it did; the object itself lives as
long as somebody holds a `TcpConnectionPtr` to it, which is what `Alive` says.

Two of the functors a connection queues are bound to `this`, the others to a
`TcpConnectionPtr`.  `doPendingFunctors` keeps the functors it has swapped out until it
returns, those it has run included; `handleEvent`, `newConnection` and `handleClose` keep
a pointer on the stack until they return.

The wakeup channels and the acceptor's channel have descriptors of their own and are left
out of the pollers; the acceptor's event is a flag of the base loop.
-/
import Muduo.ConnSystem
import Mathlib.Data.Finset.Basic

namespace Muduo

abbrev LoopId := Nat

namespace Functor

/-- The connection a functor is bound to. -/
def conn : Functor → ConnId
  | .sendInLoop c _ => c
  | .shutdownInLoop c => c
  | .connectEstablished c => c
  | .connectDestoryed c => c
  | .writeComplete c => c
  | .highWaterMark c _ => c
  | .removeConnectionInLoop c => c

/-- The functor is bound to a `TcpConnectionPtr`, not to `this`. -/
def owns : Functor → Bool
  | .sendInLoop _ _ => false
  | .shutdownInLoop _ => false
  | _ => true

end Functor

/-- A thread in a call will read the byte at address `a`. -/
def CallPc.Reads : CallPc → Nat → Prop
  | .sending call, a => Covers call.message call.len a
  | _, _ => False

instance (pc : CallPc) (a : Nat) : Decidable (pc.Reads a) :=
  match pc with
  | .sending call => inferInstanceAs (Decidable (Covers call.message call.len a))
  | .idle | .shutdownSeen | .shutdownStored => .isFalse id

structure LoopState where
  poller : EpollPoller
  /-- `m_pendingFunctors`. -/
  queue : List Functor
  phase : LoopPhase
  /-- The connections of `m_activeChannels` that are not handled yet. -/
  active : List ConnId
  /-- The acceptor's channel is among them. -/
  accepting : Bool
  /-- `funcs` in `doPendingFunctors`, and what is left of it to run. -/
  funcs : List Functor
  batch : List Functor
  /-- The connection whose code the loop's thread is inside of, and what is left of it. -/
  inside : ConnId
  frames : List Frame

/-- A loop before its first `poll`. -/
def LoopState.start : LoopState where
  poller := .empty
  queue := []
  phase := .polling
  active := []
  accepting := false
  funcs := []
  batch := []
  inside := 0
  frames := []

/-- A connection that `newConnection` has made. -/
structure Accepted where
  /-- Its loop, `getLoop()`. -/
  loop : LoopId
  conn : TcpConnection
  pcs : Tid → CallPc
  log : List Entry

/-- What happens to the server object. -/
inductive ServerEntry
  | removeConnection (c : ConnId)
  | removeConnectionInLoop (c : ConnId)
  /-- `~TcpServer` has begun. -/
  | destroy
  /-- `~TcpServer` has queued `connectDestoryed` for the connection. -/
  | released (c : ConnId)
  deriving DecidableEq, Repr

structure TcpServer where
  threadId : LoopId → Tid
  /-- `loops_.size()`. -/
  size : Nat
  loops : LoopId → LoopState
  /-- `next_` of the pool. -/
  next : Nat
  nextConnId : Nat
  /-- The keys of `connections_`. -/
  connections : Finset ConnId
  /-- Whether `writeCompleteCallback_` has a target. -/
  writeCompleteCallback : Bool
  conns : ConnId → Option Accepted
  /-- The pointers that user code holds, with the thread that holds each. -/
  held : List (Tid × ConnId)
  mem : Mem
  log : List ServerEntry

namespace TcpServer

inductive Action
  /-- `Acceptor::handleRead` gets a connection and calls `newConnection`. -/
  | accept (sockfd : Fd)
  /-- The members of a connection that other threads may call, cut as in `ConnSystem`. -/
  | send (t : Tid) (c : ConnId) (message len : Nat)
  | sendRun (t : Tid) (c : ConnId) (w : WriteResult)
  | shutdown (t : Tid) (c : ConnId)
  | shutdownStore (t : Tid) (c : ConnId)
  | shutdownRun (t : Tid) (c : ConnId)
  | setWriteCompleteCallback (c : ConnId) (isSet : Bool)
  | setHighWaterMarkCallback (c : ConnId) (isSet : Bool) (highWatermark : Nat)
  | poke (a : Nat) (b : Option Byte)
  /-- A thread copies a pointer it was handed, or lets go of one. -/
  | hold (t : Tid) (c : ConnId)
  | drop (t : Tid) (c : ConnId)
  /-- `epoll_wait` of a loop returns, reporting these descriptors. -/
  | poll (l : LoopId) (reports : List (Fd × Events)) (accepting : Bool)
  | handleEvent (l : LoopId) (c : ConnId)
  | frame (l : LoopId) (io : Io)
  | swap (l : LoopId)
  | functor (l : LoopId) (io : Io)
  | batchEnd (l : LoopId)
  /-- `~TcpServer` begins. -/
  | destroy
  /-- The next round of the loop in `~TcpServer`. -/
  | release (c : ConnId)

variable (s : TcpServer)

/-- Somebody holds a `TcpConnectionPtr` to the connection: the map, user code, a functor, or
code on the stack of a loop's thread. -/
def Alive (c : ConnId) : Prop :=
  c ∈ s.connections ∨ (∃ p ∈ s.held, p.2 = c) ∨
    ∃ l < s.size,
      (∃ f ∈ (s.loops l).queue ++ (s.loops l).funcs, f.owns = true ∧ f.conn = c) ∨
        ((s.loops l).frames ≠ [] ∧ (s.loops l).inside = c)

/-- The thread is inside no call of a connection's member. -/
def Idle (t : Tid) : Prop := ∀ c < s.nextConnId, ∀ x ∈ s.conns c, x.pcs t = .idle

/-- The loop's thread is in no connection's code. -/
def LoopIdle (l : LoopId) : Prop :=
  l < s.size ∧ s.Idle (s.threadId l) ∧ (s.loops l).frames = []

/-! ### Changing a part -/

def setLoop (l : LoopId) (q : LoopState) : TcpServer :=
  { s with loops := Function.update s.loops l q }

def setConn (c : ConnId) (x : Accepted) : TcpServer :=
  { s with conns := Function.update s.conns c (some x) }

def record (e : ServerEntry) : TcpServer := { s with log := s.log ++ [e] }

/-- `queueInLoop` of a loop. -/
def push (l : LoopId) (f : Functor) : TcpServer :=
  s.setLoop l { s.loops l with queue := (s.loops l).queue ++ [f] }

/-- What a member function of a connection sees. -/
def ctx (x : Accepted) : Ctx where
  conn := x.conn
  poller := (s.loops x.loop).poller
  pending := []
  log := x.log

/-- The server after a member function of a connection. -/
def put (c : ConnId) (x : Accepted) (y : Ctx) : TcpServer :=
  (s.setConn c { x with conn := y.conn, log := y.log }).setLoop x.loop
    { s.loops x.loop with
      poller := y.poller
      queue := (s.loops x.loop).queue ++ y.pending }

/-- A thread gets on in a call on the connection. -/
def setPc (c : ConnId) (t : Tid) (pc : CallPc) : TcpServer :=
  { s with
    conns := Function.update s.conns c
      ((s.conns c).map fun x => { x with pcs := Function.update x.pcs t pc }) }

/-- A loop's thread has `frames` left of a connection's code. -/
def enter (l : LoopId) (c : ConnId) (frames : List Frame) : TcpServer :=
  s.setLoop l { s.loops l with inside := c, frames := frames }

/-! ### The server's functions -/

/-- `EventLoopThreadPool::getNextLoop`: the loop, and the new `next_`. -/
def getNextLoop : LoopId × Nat :=
  if s.size = 1 then (0, s.next)
  else
    let next := if s.next = 0 then 1 else s.next
    (next, (next + 1) % s.size)

/-- `newConnection`.  On the base loop `connectEstablished` is called at once. -/
def newConnection (sockfd : Fd) : TcpServer :=
  let ioLoop := s.getNextLoop.1
  let c := s.nextConnId
  let s' : TcpServer :=
    { s with
      next := s.getNextLoop.2
      nextConnId := s.nextConnId + 1
      connections := insert c s.connections
      conns := Function.update s.conns c (some
        { loop := ioLoop
          conn := TcpConnection.new c sockfd s.writeCompleteCallback
          pcs := fun _ => .idle
          log := [] }) }
  if ioLoop = 0 then s'.enter 0 c [.connectEstablished]
  else s'.push ioLoop (.connectEstablished c)

/-- Queues `connectDestoryed` on the connection's loop. -/
def queueDestory (c : ConnId) : TcpServer :=
  match s.conns c with
  | some x => s.push x.loop (.connectDestoryed c)
  | none => s

/-- `removeConnectionInLoop`. -/
def removeConnectionInLoop (c : ConnId) : TcpServer :=
  { s.record (.removeConnectionInLoop c) with
    connections := s.connections.erase c }.queueDestory c

/-- `removeConnection`, called on the thread of loop `l`. -/
def removeConnection (l : LoopId) (c : ConnId) : TcpServer :=
  let s' := s.record (.removeConnection c)
  if l = 0 then s'.removeConnectionInLoop c else s'.push 0 (.removeConnectionInLoop c)

/-- One round of the loop in `~TcpServer`. -/
def release (c : ConnId) : TcpServer :=
  { s.record (.released c) with connections := s.connections.erase c }.queueDestory c

/-! ### The steps -/

/-- The connection an entry of the loop's interest set points to. -/
def pointee (l : LoopId) (fd : Fd) : Option ConnId :=
  ((s.loops l).poller.interest fd).map Prod.fst

/-- `epoll_wait` and `fillActiveChannels`. -/
def poll (l : LoopId) (reports : List (Fd × Events)) (accepting : Bool) : TcpServer :=
  { s.setLoop l
      { s.loops l with
        phase := .handling
        active := reports.filterMap fun r => s.pointee l r.1
        accepting := accepting } with
    conns := fun c => (s.conns c).map fun x =>
      match reports.find? fun r => s.pointee l r.1 = some c with
      | some r => { x with conn := { x.conn with
          channel := { x.conn.channel with revents := r.2 } } }
      | none => x }

/-- `Channel::handleEvent`. -/
def handleEvent (l : LoopId) (c : ConnId) : TcpServer :=
  match s.conns c with
  | some x =>
      (s.setConn c { x with log := x.log ++ [.handleEvent x.conn.channel.revents] }).setLoop l
        { s.loops l with
          active := (s.loops l).active.tail
          inside := c
          frames := Ctx.handelEventWithGuard }
  | none => s

/-- When an action can happen. -/
def Enabled : Action → Prop
  -- a signed overflow of `nextConnId_` is undefined; the descriptor is open nowhere else
  | .accept sockfd =>
      s.LoopIdle 0 ∧ (s.loops 0).phase = .handling ∧ (s.loops 0).accepting = true ∧
      .destroy ∉ s.log ∧ s.nextConnId + 1 < 2 ^ 31 ∧
      ∀ c < s.nextConnId, ∀ x ∈ s.conns c, s.Alive c → x.conn.channel.fd ≠ sockfd
  | .send t c message len =>
      s.Idle t ∧ (t, c) ∈ s.held ∧ len < 2 ^ 64 ∧ (s.mem.read message len).toBool = true
  | .sendRun t c _ => ∃ x ∈ s.conns c, (x.pcs t matches .sending _) = true
  | .shutdown t c => s.Idle t ∧ (t, c) ∈ s.held
  | .shutdownStore t c => ∃ x ∈ s.conns c, x.pcs t = .shutdownSeen
  | .shutdownRun t c => ∃ x ∈ s.conns c, x.pcs t = .shutdownStored
  | .setWriteCompleteCallback c _ => ∃ p ∈ s.held, p.2 = c
  | .setHighWaterMarkCallback c _ _ => ∃ p ∈ s.held, p.2 = c
  -- the arguments of a call stay as they are until it returns
  | .poke a _ => ∀ p ∈ s.held, ∀ x ∈ s.conns p.2, ¬ (x.pcs p.1).Reads a
  -- user code is handed a pointer by the first callback
  | .hold t c => s.Idle t ∧ s.Alive c ∧ ∃ x ∈ s.conns c, .establish ∈ x.log
  | .drop t c => s.Idle t ∧ (t, c) ∈ s.held
  | .poll l reports accepting =>
      s.LoopIdle l ∧ (s.loops l).phase = .polling ∧ (reports.map Prod.fst).Nodup ∧
      (∀ r ∈ reports, ∃ c ∈ s.pointee l r.1, s.Alive c) ∧ (accepting = true → l = 0)
  | .handleEvent l c => s.LoopIdle l ∧ (s.loops l).phase = .handling ∧
      (s.loops l).active.head? = some c ∧ s.Alive c
  | .frame l _ => l < s.size ∧ s.Idle (s.threadId l) ∧ (s.loops l).frames ≠ []
  | .swap l => s.LoopIdle l ∧ (s.loops l).phase = .handling ∧ (s.loops l).active = [] ∧
      (s.loops l).accepting = false
  | .functor l _ => s.LoopIdle l ∧ (s.loops l).phase = .functors ∧
      ∃ f ∈ (s.loops l).batch.head?, s.Alive f.conn
  | .batchEnd l => s.LoopIdle l ∧ (s.loops l).phase = .functors ∧ (s.loops l).batch = []
  | .destroy => .destroy ∉ s.log
  | .release c => .destroy ∈ s.log ∧ c ∈ s.connections

instance (c : ConnId) : Decidable (s.Alive c) :=
  inferInstanceAs (Decidable (_ ∨ _))

instance (t : Tid) : Decidable (s.Idle t) :=
  inferInstanceAs (Decidable (∀ c < s.nextConnId, ∀ x ∈ s.conns c, x.pcs t = .idle))

instance (l : LoopId) : Decidable (s.LoopIdle l) :=
  inferInstanceAs (Decidable (_ ∧ _))

instance (a : Action) : Decidable (s.Enabled a) :=
  match a with
  | .accept sockfd => inferInstanceAs (Decidable (_ ∧ _ ∧ _ ∧ _ ∧ _ ∧
      ∀ c < s.nextConnId, ∀ x ∈ s.conns c, s.Alive c → x.conn.channel.fd ≠ sockfd))
  | .send _ _ _ _ => inferInstanceAs (Decidable (_ ∧ _ ∧ _ ∧ _))
  | .sendRun t c _ =>
      inferInstanceAs (Decidable (∃ x ∈ s.conns c, (x.pcs t matches .sending _) = true))
  | .shutdown _ _ => inferInstanceAs (Decidable (_ ∧ _))
  | .shutdownStore t c => inferInstanceAs (Decidable (∃ x ∈ s.conns c, x.pcs t = .shutdownSeen))
  | .shutdownRun t c =>
      inferInstanceAs (Decidable (∃ x ∈ s.conns c, x.pcs t = .shutdownStored))
  | .setWriteCompleteCallback c _ => inferInstanceAs (Decidable (∃ p ∈ s.held, p.2 = c))
  | .setHighWaterMarkCallback c _ _ => inferInstanceAs (Decidable (∃ p ∈ s.held, p.2 = c))
  | .poke a _ =>
      inferInstanceAs (Decidable (∀ p ∈ s.held, ∀ x ∈ s.conns p.2, ¬ (x.pcs p.1).Reads a))
  | .hold _ c =>
      inferInstanceAs (Decidable (_ ∧ _ ∧ ∃ x ∈ s.conns c, Entry.establish ∈ x.log))
  | .drop _ _ => inferInstanceAs (Decidable (_ ∧ _))
  | .poll l reports _ => inferInstanceAs (Decidable (_ ∧ _ ∧ _ ∧
      (∀ r ∈ reports, ∃ c ∈ s.pointee l r.1, s.Alive c) ∧ _))
  | .handleEvent _ _ => inferInstanceAs (Decidable (_ ∧ _ ∧ _ ∧ _))
  | .frame _ _ => inferInstanceAs (Decidable (_ ∧ _ ∧ _))
  | .swap _ => inferInstanceAs (Decidable (_ ∧ _ ∧ _ ∧ _))
  | .functor l _ =>
      inferInstanceAs (Decidable (_ ∧ _ ∧ ∃ f ∈ (s.loops l).batch.head?, s.Alive f.conn))
  | .batchEnd _ => inferInstanceAs (Decidable (_ ∧ _ ∧ _))
  | .destroy => inferInstanceAs (Decidable (_ ∉ _))
  | .release _ => inferInstanceAs (Decidable (_ ∧ _))

/-- The rest of a member function of the connection on the loop's thread. -/
def runFrame (l : LoopId) (io : Io) : Except Fault TcpServer :=
  match (s.loops l).frames, s.conns (s.loops l).inside with
  | f :: rest, some x => do
      let c := (s.loops l).inside
      let (y, frames) ← (s.ctx x).runFrame io f
      let s' := (s.put c x y).enter l c (frames ++ rest)
      return if f = .closeCallback then s'.removeConnection l c else s'
  | _, _ => .ok s

/-- The next functor of the batch. -/
def runFunctor (l : LoopId) (io : Io) : Except Fault TcpServer :=
  match (s.loops l).batch with
  | .removeConnectionInLoop c :: rest =>
      .ok ((s.setLoop l { s.loops l with batch := rest }).removeConnectionInLoop c)
  | f :: rest =>
      match s.conns f.conn with
      | some x => do
          let s' := s.setLoop l { s.loops l with batch := rest }
          let (y, frames) ← (s'.ctx x).runFunctor s.mem io f
          return (s'.put f.conn x y).enter l f.conn frames
      | none => .ok s
  | [] => .ok s

def exec : Action → Except Fault TcpServer
  | .accept sockfd =>
      .ok ((s.setLoop 0 { s.loops 0 with accepting := false }).newConnection sockfd)
  | .send t c message len =>
      match s.conns c with
      | some x => do
          let (y, pc) ← (s.ctx x).send t s.mem message len
          return (s.put c x y).setPc c t pc
      | none => .ok s
  | .sendRun t c w =>
      match s.conns c with
      | some x =>
          match x.pcs t with
          | .sending call => do
              let y ← (s.ctx x).sendRun (t == s.threadId x.loop) s.mem call w
              return (s.put c x y).setPc c t .idle
          | _ => .ok s
      | none => .ok s
  | .shutdown t c =>
      match s.conns c with
      | some x => .ok ((s.put c x ((s.ctx x).shutdown t).1).setPc c t ((s.ctx x).shutdown t).2)
      | none => .ok s
  | .shutdownStore t c =>
      match s.conns c with
      | some x => .ok ((s.put c x (s.ctx x).shutdownStore).setPc c t .shutdownStored)
      | none => .ok s
  | .shutdownRun t c =>
      match s.conns c with
      | some x =>
          .ok ((s.put c x ((s.ctx x).shutdownRun (t == s.threadId x.loop))).setPc c t .idle)
      | none => .ok s
  | .setWriteCompleteCallback c isSet =>
      match s.conns c with
      | some x => .ok (s.setConn c
          { x with conn := { x.conn with writeCompleteCallback := isSet } })
      | none => .ok s
  | .setHighWaterMarkCallback c isSet highWatermark =>
      match s.conns c with
      | some x => .ok (s.setConn c { x with conn := { x.conn with
          highWaterMarkCallback := isSet, highWaterMark := highWatermark } })
      | none => .ok s
  | .poke a b => .ok { s with mem := s.mem.poke a b }
  | .hold t c => .ok { s with held := (t, c) :: s.held }
  | .drop t c => .ok { s with held := s.held.erase (t, c) }
  | .poll l reports accepting => .ok (s.poll l reports accepting)
  | .handleEvent l c => .ok (s.handleEvent l c)
  | .frame l io => s.runFrame l io
  | .swap l => .ok (s.setLoop l
      { s.loops l with
        phase := .functors
        funcs := (s.loops l).queue
        batch := (s.loops l).queue
        queue := [] })
  | .functor l io => s.runFunctor l io
  | .batchEnd l => .ok (s.setLoop l { s.loops l with phase := .polling, funcs := [] })
  | .destroy => .ok (s.record .destroy)
  | .release c => .ok (s.release c)

/-- A server that has just been started. -/
structure Init : Prop where
  size : 1 ≤ s.size
  threadId : ∀ l < s.size, ∀ l' < s.size, s.threadId l = s.threadId l' → l = l'
  loops : ∀ l, s.loops l = .start
  next : s.next = 0
  nextConnId : s.nextConnId = 1
  connections : s.connections = ∅
  conns : ∀ c, s.conns c = none
  held : s.held = []
  log : s.log = []

/-- The system: an enabled action that ends without a fault. -/
def lts : Lts TcpServer Action where
  init := Init
  step s a s' := s.Enabled a ∧ s.exec a = .ok s'

end TcpServer

end Muduo
