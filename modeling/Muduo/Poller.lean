/-
One `EpollPoller` and the channels that use it.

The channels in use are a partial map from identities.  Channels in use at the same time
have descriptors of their own; the identity and the descriptor of a channel that is out of
use may be taken by a new one, as the address of a freed object and the number of a closed
descriptor are.  A channel goes out of use only when the poller does not know it: never
enabled, or removed.
-/
import Muduo.Lib.Lts
import Muduo.Channel

namespace Muduo

/-- The calls of `Channel` that change its interest. -/
inductive InterestCall
  | enableReading
  | disableReading
  | enableWriting
  | disableWriting
  | disableAll
  deriving DecidableEq, Repr

namespace InterestCall

def run : InterestCall → Channel → EpollPoller → Except Fault (EpollPoller × Channel)
  | .enableReading => Channel.enableReading
  | .disableReading => Channel.disableReading
  | .enableWriting => Channel.enableWriting
  | .disableWriting => Channel.disableWriting
  | .disableAll => Channel.disableAll

/-- What the call makes of `m_events`. -/
def events : InterestCall → Events → Events
  | .enableReading, e => e ||| Channel.kReadEvent
  | .disableReading, e => e &&& ~~~Channel.kReadEvent
  | .enableWriting, e => e ||| Channel.kWriteEvent
  | .disableWriting, e => e &&& ~~~Channel.kWriteEvent
  | .disableAll, _ => Channel.kNoneEvent

/-- The call leaves no interest. -/
def Clears : InterestCall → Events → Prop
  | .enableReading, _ => False
  | .disableReading, e => e &&& ~~~Channel.kReadEvent = 0
  | .enableWriting, _ => False
  | .disableWriting, e => e &&& ~~~Channel.kWriteEvent = 0
  | .disableAll, _ => True

theorem run_eq (call : InterestCall) (c : Channel) (p : EpollPoller) :
    call.run c p = c.setEvents (call.events c.events) p := by
  cases call <;> rfl

theorem clears_iff {call : InterestCall} {e : Events} : call.Clears e ↔ call.events e = 0 := by
  cases call with
  | enableReading => simpa [Clears, events] using Channel.or_ne_zero (by decide)
  | enableWriting => simpa [Clears, events] using Channel.or_ne_zero (by decide)
  | disableReading | disableWriting => exact Iff.rfl
  | disableAll => simp [Clears, events, Channel.kNoneEvent]

end InterestCall

namespace EpollPoller

/-- The `epoll_ctl` call `updateChannel` makes. -/
def updateOp (c : Channel) : EpollOp :=
  match c.index with
  | .kNew | .kDeleted => .add
  | .kAdded => if c.isNoneEvent then .del else .mod

/-- The `epoll_ctl` call `removeChannel` makes, if any. -/
def removeOp (c : Channel) : Option EpollOp :=
  if c.index = .kAdded then some .del else none

/-- `epoll_ctl` takes the call: it adds a descriptor that is not in the set, or changes or
deletes one that is. -/
def Takes (p : EpollPoller) (fd : Fd) : EpollOp → Prop
  | .add => p.interest fd = none
  | .mod | .del => (p.interest fd).isSome

end EpollPoller

structure PollerSystem where
  poller : EpollPoller
  /-- The channels in use. -/
  channels : ChannelId → Option Channel

namespace PollerSystem

inductive Action
  /-- A channel is constructed for an open descriptor. -/
  | create (id : ChannelId) (fd : Fd)
  | interest (id : ChannelId) (call : InterestCall)
  | remove (id : ChannelId)
  /-- The channel is not operated on any more. -/
  | retire (id : ChannelId)

variable (s : PollerSystem)

/-- When an action can happen. -/
def Enabled : Action → Prop
  | .create id fd => s.channels id = none ∧ ∀ i c, s.channels i = some c → c.fd ≠ fd
  | .interest id _ => (s.channels id).isSome
  | .remove id => (s.channels id).isSome
  | .retire id => ∃ c, s.channels id = some c ∧ c.index = .kNew

/-- The system after a call on one channel. -/
def put (id : ChannelId) (r : EpollPoller × Channel) : PollerSystem where
  poller := r.1
  channels := Function.update s.channels id (some r.2)

def exec : Action → Except Fault PollerSystem
  | .create id fd =>
      .ok { s with channels := Function.update s.channels id (some (Channel.new id fd)) }
  | .interest id call =>
      match s.channels id with
      | some c => (call.run c s.poller).map (s.put id)
      | none => .ok s
  | .remove id =>
      match s.channels id with
      | some c => (c.remove s.poller).map (s.put id)
      | none => .ok s
  | .retire id => .ok { s with channels := Function.update s.channels id none }

/-- The `epoll_ctl` call an action leads to. -/
def ctl : Action → Option (Fd × EpollOp)
  | .interest id call => (s.channels id).map fun c =>
      (c.fd, EpollPoller.updateOp { c with events := call.events c.events })
  | .remove id => (s.channels id).bind fun c => (EpollPoller.removeOp c).map (c.fd, ·)
  | .create _ _ | .retire _ => none

/-- The system: an enabled action that does not abort. -/
def lts : Lts PollerSystem Action where
  init s := s.poller = .empty ∧ s.channels = fun _ => none
  step s a s' := s.Enabled a ∧ s.exec a = .ok s'

end PollerSystem

end Muduo
