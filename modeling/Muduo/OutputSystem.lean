/-
The output of one connection that is up, with both of its notifications.

The steps are those that move output, `sendInLoop` and `handleWrite`, on any message and
with any count that `::write` may return, and between them a new high-water mark or the
store of `shutdown`.  `notified` is what a step should tell the user, from the amount
of unsent output before it and after it.
-/
import Muduo.Lib.Lts
import Muduo.History

namespace Muduo

inductive OutputAction
  | sendInLoop (mem : Mem) (call : SendCall) (w : WriteResult)
  | handleWrite (w : WriteResult)
  | setHighWaterMarkCallback (highWatermark : Nat)
  | shutdownStore

def OutputAction.isSend : OutputAction → Bool
  | .sendInLoop _ _ _ => true
  | _ => false

namespace OutputSystem

variable (x : Ctx)

/-- A length or a mark is a `size_t`, `::write` returns a count within the request, and
`shutdown` stores only when it has seen `kConnected`. -/
def Enabled : OutputAction → Prop
  | .sendInLoop _ call w => call.len < 2 ^ 64 ∧ 0 ≤ w.ret ∧ w.ret ≤ call.len
  | .handleWrite w => 0 ≤ w.ret ∧ w.ret ≤ x.conn.outputBuffer.readableBytes
  | .setHighWaterMarkCallback highWatermark => highWatermark < 2 ^ 64
  | .shutdownStore => x.conn.state = .kConnected

def exec : OutputAction → Except Fault Ctx
  | .sendInLoop mem call w => x.sendInLoop mem call w
  | .handleWrite w => x.handleWrite w
  | .setHighWaterMarkCallback highWatermark =>
      .ok { x with conn := x.conn.setHighWaterMarkCallback true highWatermark }
  | .shutdownStore => .ok x.shutdownStore

/-- A connection that is up, with both callbacks set and nothing sent yet. -/
structure Init : Prop where
  up : x.conn.state = .kConnected ∨ x.conn.state = .kDisconnecting
  writeComplete : x.conn.writeCompleteCallback = true
  highWaterMark : x.conn.highWaterMarkCallback = true
  writing : x.conn.channel.isWriting = false
  output : ∃ initialSize, x.conn.outputBuffer = Buffer.new initialSize
  log : x.log = []

/-- The system: an enabled step that ends without a fault. -/
def lts : Lts Ctx OutputAction where
  init := Init
  step x a x' := Enabled x a ∧ exec x a = .ok x'

/-! ### What a step should queue -/

/-- The step issued a `::write`. -/
def wrote (x x' : Ctx) : Bool := (x'.log.drop x.log.length).any Entry.isWrite

/-- What the step should queue: `writeCompleteCallback_` if it wrote and every byte that was
taken from a message has been written, and `m_highWaterMarkCallback` with the amount of
unsent output if it is a `sendInLoop` that takes this amount over the mark. -/
def notified (x : Ctx) (a : OutputAction) (x' : Ctx) : List Functor :=
  (if wrote x x' ∧ written x'.log = taken x'.log then [.writeComplete x.conn.channel.id]
    else []) ++
  (if a.isSend ∧ x.conn.outputBuffer.readableBytes < x.conn.highWaterMark ∧
      x.conn.highWaterMark ≤ x'.conn.outputBuffer.readableBytes then
    [.highWaterMark x.conn.channel.id x'.conn.outputBuffer.readableBytes]
  else [])

end OutputSystem

end Muduo
