/-
The member functions of `TcpConnection.cpp`.

A member function reaches its own fields, the poller of its loop and, for a write, the
caller's memory, and it queues functors on its loop.  A `Ctx` is the first two, the
functors queued so far, and the log of what the connection has done, which nothing
reads; the results about runs are statements about it.

A function that calls back into user code is cut at the call.  What it still has to do
when the callback returns is given back as a list of `Frame`s, so that the callback's
own calls, and other threads, come in between.
-/
import Muduo.Buffer
import Muduo.Channel

namespace Muduo

abbrev ConnId := ChannelId

/-- `TcpConnection::StateE`. -/
inductive StateE
  | kDisconnected
  | kConnecting
  | kConnected
  | kDisconnecting
  deriving DecidableEq, Repr

structure TcpConnection where
  state : StateE
  channel : Channel
  connectionCallback : Bool
  messageCallback : Bool
  closeCallback : Bool
  writeCompleteCallback : Bool
  highWaterMarkCallback : Bool
  highWaterMark : Nat
  inputBuffer : Buffer
  outputBuffer : Buffer
  deriving DecidableEq, Repr

/-- The constructor, with the callbacks `TcpServer::newConnection` sets afterwards.  A
callback field says whether the `std::function` holds a target. -/
def TcpConnection.new (id : ConnId) (sockfd : Fd) (writeComplete : Bool) : TcpConnection where
  state := .kConnecting
  channel := Channel.new id sockfd
  connectionCallback := true
  messageCallback := true
  closeCallback := true
  writeCompleteCallback := writeComplete
  highWaterMarkCallback := false
  highWaterMark := 64 * 1024 * 1024
  inputBuffer := Buffer.new Buffer.kInitialSize
  outputBuffer := Buffer.new Buffer.kInitialSize

def TcpConnection.setHighWaterMarkCallback (conn : TcpConnection) (cb : Bool)
    (highWatermark : Nat) : TcpConnection :=
  { conn with highWaterMarkCallback := cb, highWaterMark := highWatermark }

/-- The arguments of one call of `send`.  `thread` and `bytes`, the bytes that stood at
`message` when `send` was called, are for the log; the code uses the other two. -/
structure SendCall where
  thread : Tid
  message : Nat
  len : Nat
  bytes : List Byte
  deriving DecidableEq, Repr

/-- What is queued in `EventLoop::m_pendingFunctors` on behalf of a connection. -/
inductive Functor
  | sendInLoop (c : ConnId) (call : SendCall)
  | shutdownInLoop (c : ConnId)
  | connectEstablished (c : ConnId)
  | connectDestoryed (c : ConnId)
  | writeComplete (c : ConnId)
  | highWaterMark (c : ConnId) (n : Nat)
  | removeConnectionInLoop (c : ConnId)
  deriving DecidableEq, Repr

/-- What a connection has done, as the log records it. -/
inductive Entry
  /-- `send` saw `kConnected`. -/
  | called (call : SendCall)
  /-- That call of `send` returned. -/
  | returned (call : SendCall)
  /-- `sendInLoop` wrote or buffered `bytes` for the call. -/
  | ran (call : SendCall) (bytes : List Byte)
  /-- `sendInLoop` gave the call up on `kDisconnected`. -/
  | gaveUp (call : SendCall)
  /-- `::write` was given `requested` bytes, returned `ret` and accepted `accepted`. -/
  | write (requested : Nat) (ret : Int) (accepted : List Byte)
  /-- `::readv` was given room for `limit` bytes and returned `ret`. -/
  | readv (limit : Nat) (ret : Int)
  /-- `shutdown` was called. -/
  | shutdownCalled (thread : Tid)
  /-- `Socket::shutdownWrite`, with the state and the unsent output at that moment. -/
  | shutdownWrite (state : StateE) (unsent : List Byte)
  /-- A store to `m_state`. -/
  | stored (state : StateE)
  /-- `connectEstablished` was entered. -/
  | establish
  /-- `connectDestoryed` was entered, and it returned. -/
  | destoryBegin
  | destoryEnd
  /-- `Channel::handleEvent` was entered with this mask. -/
  | handleEvent (revents : Events)
  /-- `connectionCallback_` was invoked, with the value of `connected()`. -/
  | connectionCallback (connected : Bool)
  | messageCallback
  | closeCallback
  deriving DecidableEq, Repr

/-- Where a thread is inside `send` or `shutdown`. -/
inductive CallPc
  | idle
  /-- `send` saw `kConnected`; next is `isInLoopThread()`. -/
  | sending (call : SendCall)
  /-- `shutdown` saw `kConnected`; next is the store of `kDisconnecting`. -/
  | shutdownSeen
  /-- `shutdown` has stored; next is `runInLoop`. -/
  | shutdownStored
  deriving DecidableEq, Repr

/-- The rest of a function that was cut at a callback or at a load of `m_state`. -/
inductive Frame
  /-- The call of `connectEstablished` in `newConnection`, when that runs on the loop. -/
  | connectEstablished
  /-- The four conditional calls of `Channel::handelEventWithGuard`. -/
  | closePart
  | errorPart
  | readPart
  | writePart
  /-- `m_closeCallback(guardThis)`, the end of `handleClose`. -/
  | closeCallback
  /-- The body of the `if` of `connectDestoryed`. -/
  | destoryStore
  /-- `m_channel->remove()`, the end of `connectDestoryed`. -/
  | destoryRemove
  deriving DecidableEq, Repr

/-- What the kernel answers when a piece of code makes its one system call. -/
structure Io where
  write : WriteResult
  readv : ReadvResult
  deriving DecidableEq, Repr

/-- What a member function of a connection can reach. -/
structure Ctx where
  conn : TcpConnection
  poller : EpollPoller
  /-- The functors queued on the connection's loop. -/
  pending : List Functor
  log : List Entry

namespace Ctx

def record (x : Ctx) (e : Entry) : Ctx := { x with log := x.log ++ [e] }

def setState (x : Ctx) (s : StateE) : Ctx :=
  { x with conn := { x.conn with state := s } }.record (.stored s)

def connected (x : Ctx) : Bool := x.conn.state == .kConnected

def queueInLoop (x : Ctx) (f : Functor) : Ctx := { x with pending := x.pending ++ [f] }

/-- A change of the channel's interest, or its removal. -/
def updating (x : Ctx) (f : Channel → EpollPoller → Except Fault (EpollPoller × Channel)) :
    Except Fault Ctx := do
  let (poller, channel) ← f x.conn.channel x.poller
  return { x with poller := poller, conn := { x.conn with channel := channel } }

def setOutput (x : Ctx) (b : Buffer) : Ctx :=
  { x with conn := { x.conn with outputBuffer := b } }

def setInput (x : Ctx) (b : Buffer) : Ctx :=
  { x with conn := { x.conn with inputBuffer := b } }

/-- `connectionCallback_(…)`. -/
def invokeConnectionCallback (x : Ctx) : Except Fault Ctx :=
  if x.conn.connectionCallback then .ok (x.record (.connectionCallback x.connected))
  else .error .badFunctionCall

/-- `messageCallback_(…)`. -/
def invokeMessageCallback (x : Ctx) : Except Fault Ctx :=
  if x.conn.messageCallback then .ok (x.record .messageCallback)
  else .error .badFunctionCall

/-- `m_closeCallback(guardThis)`. -/
def invokeCloseCallback (x : Ctx) : Except Fault Ctx :=
  if x.conn.closeCallback then .ok (x.record .closeCallback)
  else .error .badFunctionCall

/-! ### Sending -/

/-- Queues `writeCompleteCallback_`, when there is one. -/
def queueWriteComplete (x : Ctx) : Ctx :=
  if x.conn.writeCompleteCallback then x.queueInLoop (.writeComplete x.conn.channel.id)
  else x

/-- Queues `m_highWaterMarkCallback`, when there is one and `added` more bytes take the
output from below the mark to the mark or above. -/
def queueHighWaterMark (x : Ctx) (added : Nat) : Ctx :=
  let oldLen := x.conn.outputBuffer.readableBytes
  if sizeAdd oldLen added ≥ x.conn.highWaterMark ∧ oldLen < x.conn.highWaterMark ∧
      x.conn.highWaterMarkCallback then
    x.queueInLoop (.highWaterMark x.conn.channel.id (sizeAdd oldLen added))
  else x

/-- The locals of `sendInLoop` after its direct write, and the bytes the kernel took. -/
structure Direct where
  nwrote : Nat
  remaining : Nat
  faultError : Bool
  accepted : List Byte

/-- The direct write of `sendInLoop`.  `nwrote` is a `size_t`: the test `nwrote >= 0`
always holds and the branch for a failed write is dead. -/
def directWrite (x : Ctx) (mem : Mem) (call : SendCall) (w : WriteResult) :
    Except Fault (Ctx × Direct) := do
  let nwrote := toSize w.ret
  let accepted ← mem.read call.message w.ret.toNat
  let x := x.record (.write call.len w.ret accepted)
  if 0 ≤ nwrote then
    let remaining := sizeSub call.len nwrote
    let x := if remaining = 0 then x.queueWriteComplete else x
    return (x, ⟨nwrote, remaining, false, accepted⟩)
  else
    let faultError := w.errno ≠ .EWOULDBLOCK ∧ (w.errno = .EPIPE ∨ w.errno = .ECONNRESET)
    return (x, ⟨0, call.len, faultError, accepted⟩)

/-- The second half of `sendInLoop`: what was not written goes to the output buffer. -/
def bufferRemaining (x : Ctx) (mem : Mem) (call : SendCall) (d : Direct) :
    Except Fault Ctx :=
  if !d.faultError ∧ 0 < d.remaining then do
    let x := x.queueHighWaterMark d.remaining
    let data ← mem.read (sizeAdd call.message d.nwrote) d.remaining
    let out ← x.conn.outputBuffer.append data d.remaining
    let x := (x.setOutput out).record (.ran call (d.accepted ++ data))
    if !x.conn.channel.isWriting then x.updating Channel.enableWriting else return x
  else return x.record (.ran call d.accepted)

def sendInLoop (x : Ctx) (mem : Mem) (call : SendCall) (w : WriteResult) :
    Except Fault Ctx :=
  if x.conn.state = .kDisconnected then
    .ok (x.record (.gaveUp call))
  else if !x.conn.channel.isWriting ∧ x.conn.outputBuffer.readableBytes = 0 then do
    let (x, d) ← x.directWrite mem call w
    x.bufferRemaining mem call d
  else
    x.bufferRemaining mem call ⟨0, call.len, false, []⟩

/-- `send` up to `isInLoopThread()`: nothing happens unless it sees `kConnected`. -/
def send (x : Ctx) (t : Tid) (mem : Mem) (message len : Nat) : Except Fault (Ctx × CallPc) := do
  let bytes ← mem.read message len
  let call : SendCall := { thread := t, message, len, bytes }
  return if x.connected then (x.record (.called call), .sending call) else (x, .idle)

/-- `sendInLoop` at once on the loop's thread, else through the queue, which gets the
pointer and the length. -/
def dispatchSend (x : Ctx) (isInLoopThread : Bool) (mem : Mem) (call : SendCall)
    (w : WriteResult) : Except Fault Ctx :=
  if isInLoopThread then x.sendInLoop mem call w
  else .ok (x.queueInLoop (.sendInLoop x.conn.channel.id call))

/-- The rest of `send`. -/
def sendRun (x : Ctx) (isInLoopThread : Bool) (mem : Mem) (call : SendCall)
    (w : WriteResult) : Except Fault Ctx := do
  let x ← x.dispatchSend isInLoopThread mem call w
  return x.record (.returned call)

/-! ### Shutting down -/

def shutdownInLoop (x : Ctx) : Ctx :=
  if !x.conn.channel.isWriting then
    x.record (.shutdownWrite x.conn.state x.conn.outputBuffer.content)
  else x

/-- `shutdown` up to its load of `m_state`. -/
def shutdown (x : Ctx) (t : Tid) : Ctx × CallPc :=
  let x := x.record (.shutdownCalled t)
  if x.connected then (x, .shutdownSeen) else (x, .idle)

def shutdownStore (x : Ctx) : Ctx := x.setState .kDisconnecting

/-- The rest of `shutdown`: `shutdownInLoop`, at once or through the queue. -/
def shutdownRun (x : Ctx) (isInLoopThread : Bool) : Ctx :=
  if isInLoopThread then x.shutdownInLoop
  else x.queueInLoop (.shutdownInLoop x.conn.channel.id)

/-! ### The channel's callbacks -/

def handleClose (x : Ctx) : Except Fault (Ctx × List Frame) := do
  let x ← (x.setState .kDisconnected).updating Channel.disableAll
  let x ← x.invokeConnectionCallback
  return (x, [.closeCallback])

/-- `handleError` asks the socket for its error and logs it. -/
def handleError (x : Ctx) : Ctx := x

/-- `handleRead`.  The count is a `size_t`, so one of the first two branches is taken. -/
def handleRead (x : Ctx) (r : ReadvResult) : Except Fault (Ctx × List Frame) := do
  let (input, n, _saveErrno) ← x.conn.inputBuffer.readFd r
  let x := (x.setInput input).record (.readv x.conn.inputBuffer.readvLimit r.ret)
  if 0 < n then
    return (← x.invokeMessageCallback, [])
  else if n = 0 then
    x.handleClose
  else
    return (x.handleError, [])

/-- The end of `handleWrite`, once everything has been written. -/
def writeFinished (x : Ctx) : Except Fault Ctx := do
  let x ← x.updating Channel.disableWriting
  let x := x.queueWriteComplete
  return if x.conn.state = .kDisconnecting then x.shutdownInLoop else x

def handleWrite (x : Ctx) (w : WriteResult) : Except Fault Ctx :=
  if x.conn.channel.isWriting then
    let (n, _saveErrno) := x.conn.outputBuffer.writeFd w
    let accepted := x.conn.outputBuffer.content.take w.ret.toNat
    let x := x.record (.write x.conn.outputBuffer.readableBytes w.ret accepted)
    if 0 < n then
      let x := x.setOutput (x.conn.outputBuffer.retrieve n)
      if x.conn.outputBuffer.readableBytes = 0 then x.writeFinished else .ok x
    else .ok x
  else .ok x

/-! ### Coming up and going down -/

def connectEstablished (x : Ctx) : Except Fault Ctx := do
  let x := (x.record .establish).setState .kConnected
  let x := { x with conn := { x.conn with channel := { x.conn.channel with tied := true } } }
  let x ← x.updating Channel.enableReading
  x.invokeConnectionCallback

/-- `connectDestoryed` up to its load of `m_state`. -/
def connectDestoryed (x : Ctx) : Ctx × List Frame :=
  let x := x.record .destoryBegin
  if x.conn.state = .kConnected then (x, [.destoryStore, .destoryRemove])
  else (x, [.destoryRemove])

def destoryStore (x : Ctx) : Except Fault Ctx := do
  let x ← (x.setState .kDisconnected).updating Channel.disableAll
  x.invokeConnectionCallback

def destoryRemove (x : Ctx) : Except Fault Ctx := do
  let x ← x.updating Channel.remove
  return x.record .destoryEnd

/-! ### Running pieces -/

/-- The calls of `Channel::handelEventWithGuard`, in order. -/
def handelEventWithGuard : List Frame := [.closePart, .errorPart, .readPart, .writePart]

/-- One piece of code of the loop thread, and what it leaves to do. -/
def runFrame (x : Ctx) (io : Io) : Frame → Except Fault (Ctx × List Frame)
  | .connectEstablished => do return (← x.connectEstablished, [])
  | .closePart =>
      if x.conn.channel.revents.has EPOLLHUP ∧ ¬ x.conn.channel.revents.has EPOLLIN then
        x.handleClose
      else .ok (x, [])
  | .errorPart =>
      if x.conn.channel.revents.has EPOLLERR then .ok (x.handleError, []) else .ok (x, [])
  | .readPart =>
      if x.conn.channel.revents.has (EPOLLIN ||| EPOLLPRI) then x.handleRead io.readv
      else .ok (x, [])
  | .writePart =>
      if x.conn.channel.revents.has EPOLLOUT then do return (← x.handleWrite io.write, [])
      else .ok (x, [])
  | .closeCallback => do return (← x.invokeCloseCallback, [])
  | .destoryStore => do return (← x.destoryStore, [])
  | .destoryRemove => do return (← x.destoryRemove, [])

/-- One functor that `doPendingFunctors` takes from its batch.  The two user callbacks
do nothing of their own. -/
def runFunctor (x : Ctx) (mem : Mem) (io : Io) : Functor → Except Fault (Ctx × List Frame)
  | .sendInLoop _ call => do return (← x.sendInLoop mem call io.write, [])
  | .shutdownInLoop _ => .ok (x.shutdownInLoop, [])
  | .connectEstablished _ => do return (← x.connectEstablished, [])
  | .connectDestoryed _ => .ok x.connectDestoryed
  | .writeComplete _ => .ok (x, [])
  | .highWaterMark _ _ => .ok (x, [])
  | .removeConnectionInLoop _ => .ok (x, [])

end Ctx

end Muduo
