/-
`TcpServer::start`, and the `Acceptor` that it sets to listen.

`started_` is an atomic `int`, and `started_ ++` is one step: the thread that finds 0 there
goes on, the others return.  It starts the pool, whose main thread it is from then on, and
gives `Acceptor::listen` to the base loop with `runInLoop`: on the base loop's own thread that
is a call, on any other the functor waits in the queue.  Meanwhile the base loop turns, the
threads of the pool run, other threads call `start` and use the loops they have got hold of,
and other channels of the base loop's poller come and go.

`Acceptor::handleRead` is here up to the point where `newConnection` has its loop; what comes
after that is `TcpServer`.
-/
import Muduo.PoolSystem
import Muduo.Poller

namespace Muduo

/-- A functor in the base loop's queue. -/
inductive BaseFunctor (F : Type)
  /-- `Acceptor::listen`. -/
  | listen
  | other (f : F)
  deriving DecidableEq, Repr

/-- Where a thread is in `TcpServer::start`. -/
inductive StartPc
  | outside
  /-- It has found 0 in `started_`, and is in `threadPool_->start` or behind it. -/
  | starting
  /-- In `runInLoop`, with the functor run or pushed. -/
  | handing
  deriving DecidableEq, Repr

/-- What has happened, as the log records it. -/
inductive StartEvent
  /-- The thread has found 0 in `started_`. -/
  | entered (thread : Tid)
  /-- `Acceptor::listen` has been called. -/
  | listen (thread : Tid)
  /-- `newConnection` has got this loop. -/
  | newConnection (loop : LoopPtr)
  deriving DecidableEq, Repr

structure ServerStart (F : Type) where
  started : Int
  /-- Whether `threadInitCallback_` has a target. -/
  threadInitCallback : Bool
  pcs : Tid → StartPc
  pool : PoolSystem F
  /-- `loop_`. -/
  base : EventLoop (BaseFunctor F)
  /-- The poller of `loop_` and the channels that use it. -/
  poller : PollerSystem
  /-- `acceptChannel_`. -/
  acceptChannel : ChannelId
  /-- Whether `::listen` takes the socket. -/
  listenable : Bool
  listening : Bool
  /-- Whether `newConnectionCallback_` has a target. -/
  newConnectionCallback : Bool
  /-- The events of `acceptChannel_`, as long as it is in `m_activeChannels`. -/
  reported : Option Events
  log : List StartEvent

/-- The channel that an action is about. -/
def PollerSystem.Action.channel : PollerSystem.Action → ChannelId
  | .create id _ => id
  | .interest id _ => id
  | .remove id => id
  | .retire id => id

namespace ServerStart

variable {F : Type}

inductive Action (F : Type)
  /-- `start` is called, and takes its step on `started_`. -/
  | start (t : Tid)
  /-- A step of the pool. -/
  | pool (a : PoolSystem.Action F)
  /-- The `loop_->runInLoop` of `start`, up to the `if` of `queueInLoop`. -/
  | runInLoop (t : Tid)
  /-- `start` returns. -/
  | startReturn (t : Tid)
  /-- A step of the base loop, or of a thread's call of its member functions. -/
  | base (a : EventLoop.Action (BaseFunctor F))
  /-- Another channel of the base loop is created, changed or removed. -/
  | channel (a : PollerSystem.Action)
  /-- `epoll_wait` of the base loop returns, with `acceptChannel_` among what it reports. -/
  | report (activeChannels : List ActiveChannel) (revents : Events)
  /-- `handleEvent` of `acceptChannel_`, and what `accept` returns in it, if it succeeds. -/
  | handleEvent (connfd : Option Fd)

variable (s : ServerStart F)

def record (e : StartEvent) : ServerStart F := { s with log := s.log ++ [e] }

def setPc (t : Tid) (pc : StartPc) : ServerStart F :=
  { s with pcs := Function.update s.pcs t pc }

/-- The thread runs user code, as far as `start` goes: it is outside, or in the callback that
`EventLoopThreadPool::start` has called on the base loop. -/
def userCode (t : Tid) : Bool :=
  s.pcs t = .outside ∨ s.pcs t = .starting ∧ s.pool.pc = .started ∧ s.pool.called ≠ []

/-- The thread inside `start` is not the base loop's own. -/
def baseFree : Bool := s.pcs s.base.threadId = .outside

/-- `Acceptor::listen`.  When `acceptSocket_.listen()` fails that is fatal. -/
def listen : Except Fault (ServerStart F) :=
  if s.listenable then
    (s.poller.exec (.interest s.acceptChannel .enableReading)).map fun poller =>
      { s with listening := true, poller := poller }.record (.listen s.base.threadId)
  else .error .abort

/-- `TcpServer::newConnection`, up to the call of `ioLoop->name()`. -/
def newConnection : Except Fault (ServerStart F) := do
  let (ioLoop, pool) ← s.pool.pool.getNextLoop
  let s := { s with pool := { s.pool with pool := pool, handed := s.pool.handed ++ [ioLoop] } }
  match ioLoop with
  | some .null | none => .error .outOfBounds
  | some loop => return s.record (.newConnection loop)

/-- `Acceptor::handleRead`. -/
def handleRead (connfd : Option Fd) : Except Fault (ServerStart F) :=
  match connfd with
  | some _ =>
      -- without the callback the connection is closed
      if s.newConnectionCallback then s.newConnection else .ok s
  | none => .ok s

/-- `started_ ++`, and what the thread does that finds 0 there. -/
def callStart (t : Tid) : Option (ServerStart F) :=
  let started := toInt (s.started + 1)
  if s.started = 0 then
    ({ s.pool with owner := t }.next (.start s.threadInitCallback)).map fun pool =>
      ({ s with started := started, pool := pool }.setPc t .starting).record (.entered t)
  else some { s with started := started }

/-- The pool may take this step: its main thread is inside `start`, and a new thread is not the
base loop's. -/
def mayPool : PoolSystem.Action F → Bool
  | .create t => s.pcs s.pool.owner = .starting ∧ t ≠ s.base.threadId
  | .startReturn => s.pcs s.pool.owner = .starting
  | .member _ .startLoopReturn => s.pcs s.pool.owner = .starting
  | .member _ _ => true
  | .start _ | .getNextLoop | .destroy | .destroyReturn => false

/-- The base loop may take this step, or a thread in a call of it: a thread inside `start` does
nothing else, `listen` is given to it by `start` only, and `acceptChannel_` is not passed over. -/
def mayBase : EventLoop.Action (BaseFunctor F) → Bool
  | .queueInLoop _ .listen | .runInLoop _ .listen => false
  | .queueInLoop t _ | .runInLoop t _ | .wakeup t | .quit t => s.userCode t
  | .test _ | .write _ => true
  | .handleEvent =>
      s.baseFree ∧ (s.reported.isSome = true → .other ∈ s.base.activeChannels.tail)
  | _ => s.baseFree

/-- The base loop has taken a step; when that was to run `listen`, so it does. -/
def withBase (a : EventLoop.Action (BaseFunctor F)) (base : EventLoop (BaseFunctor F)) :
    Except Fault (ServerStart F) :=
  let s := { s with base := base }
  match a, base.pc with
  | .runFunctor, .functor ⟨_, .listen⟩ => s.listen
  | _, _ => .ok s

/-- The base loop's poller watches `acceptChannel_`. -/
def watched : Bool :=
  ((s.poller.channels s.acceptChannel).bind fun c => s.poller.poller.interest c.fd).isSome

/-- What an action leads to, if it can be taken. -/
def next (a : Action F) : Option (Except Fault (ServerStart F)) :=
  match a with
  | .start t =>
      if s.userCode t ∧ s.base.mayCall t then (s.callStart t).map .ok else none
  | .pool a =>
      if s.mayPool a then (s.pool.next a).map fun pool => .ok { s with pool := pool } else none
  | .runInLoop t =>
      if s.pcs t = .starting ∧ s.pool.pc = .started then
        (s.base.next (.runInLoop t .listen)).map fun base =>
          let s := { s with base := base }.setPc t .handing
          if s.base.isInLoopThread t then s.listen else .ok s
      else none
  | .startReturn t =>
      if s.pcs t = .handing ∧ s.base.calls t = .idle then some (.ok (s.setPc t .outside))
      else none
  | .base a =>
      if s.mayBase a then (s.base.next a).map fun base => s.withBase a base else none
  | .channel a => some ((s.poller.exec a).map fun poller => { s with poller := poller })
  | .report activeChannels revents =>
      if s.baseFree ∧ s.watched ∧ .other ∈ activeChannels then
        (s.base.next (.poll activeChannels)).map fun base =>
          .ok { s with base := base, reported := some revents }
      else none
  | .handleEvent connfd =>
      match s.reported, s.base.activeChannels with
      | some revents, .other :: _ =>
          if s.baseFree then
            (s.base.next .handleEvent).map fun base =>
              let s := { s with base := base, reported := none }
              -- the other callbacks of the channel have no targets
              if revents.has (EPOLLIN ||| EPOLLPRI) then s.handleRead connfd else .ok s
          else none
      | _, _ => none

/-- An action of the base loop's other channels is one of theirs. -/
def Enabled : Action F → Prop
  | .channel a => s.poller.Enabled a ∧ a.channel ≠ s.acceptChannel
  | _ => True

/-- The server as its constructor and `setThreadNum` leave it, with its loop on thread `t`. -/
def new (t : Tid) (name : String) (numThreads : Int) (threadInitCallback : Bool)
    (acceptChannel : ChannelId) (acceptSocket : Fd) (listenable : Bool) : ServerStart F where
  started := 0
  threadInitCallback := threadInitCallback
  pcs := fun _ => .outside
  pool := .new t name numThreads
  base := .new t
  poller := {
    poller := .empty
    channels := Function.update (fun _ => none) acceptChannel
      (some (.new acceptChannel acceptSocket)) }
  acceptChannel := acceptChannel
  listenable := listenable
  listening := false
  newConnectionCallback := true
  reported := none
  log := []

def lts : Lts (ServerStart F) (Action F) where
  init s := ∃ t name numThreads cb id fd ok, -2 ^ 31 ≤ numThreads ∧ numThreads < 2 ^ 31 ∧
    s = new t name numThreads cb id fd ok
  step s a s' := s.Enabled a ∧ s.next a = some (.ok s')

end ServerStart

end Muduo
