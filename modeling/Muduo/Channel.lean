/-
`Channel` of `Channel.cpp` and the bookkeeping of `EpollPoller.cpp`.

A channel object is known by its identity, the number the poller's map and the kernel
hold in place of its address.  The poller is its map `m_channels` and the kernel's
interest set for `m_epfd`, both keyed by the file descriptor; `epoll_ctl` fails exactly
when it adds a descriptor that is in the set or changes one that is not.
-/
import Muduo.Lib.Result
import Muduo.Basic
import Mathlib.Logic.Function.Basic

namespace Muduo

abbrev Fd := Nat
abbrev ChannelId := Nat
abbrev Events := BitVec 32

def EPOLLIN : Events := 0x001
def EPOLLPRI : Events := 0x002
def EPOLLOUT : Events := 0x004
def EPOLLERR : Events := 0x008
def EPOLLHUP : Events := 0x010

/-- One of the bits of `mask` is set, C's `events & mask` read as a condition. -/
def Events.has (events mask : Events) : Bool := events &&& mask != 0

/-- `kNew`, `kAdded` and `kDeleted` of `EpollPoller.cpp`, the values of `m_index`. -/
inductive ChannelIndex
  | kNew
  | kAdded
  | kDeleted
  deriving DecidableEq, Repr

structure Channel where
  id : ChannelId
  fd : Fd
  events : Events
  revents : Events
  index : ChannelIndex
  tied : Bool
  deriving DecidableEq, Repr

namespace Channel

def kNoneEvent : Events := 0
def kReadEvent : Events := EPOLLIN ||| EPOLLPRI
def kWriteEvent : Events := EPOLLOUT

/-- The constructor: no interest, not known to the poller, not tied. -/
def new (id : ChannelId) (fd : Fd) : Channel where
  id := id
  fd := fd
  events := kNoneEvent
  revents := 0
  index := .kNew
  tied := false

def isNoneEvent (c : Channel) : Bool := c.events == kNoneEvent
def isWriting (c : Channel) : Bool := c.events.has kWriteEvent
def isReading (c : Channel) : Bool := c.events.has kReadEvent

end Channel

/-! ### The poller -/

inductive EpollOp
  | add
  | mod
  | del
  deriving DecidableEq, Repr

structure EpollPoller where
  /-- `m_channels`. -/
  channels : Fd → Option ChannelId
  /-- The interest set of `m_epfd`: the data pointer and the mask of each descriptor. -/
  interest : Fd → Option (ChannelId × Events)

namespace EpollPoller

/-- A poller that watches nothing. -/
def empty : EpollPoller where
  channels := fun _ => none
  interest := fun _ => none

/-- `update`: the one call of `epoll_ctl`.  A failed `EPOLL_CTL_DEL` is only logged and
changes nothing; any other failure is fatal. -/
def update (p : EpollPoller) (operation : EpollOp) (c : Channel) : Except Fault EpollPoller :=
  match operation with
  | .add =>
      if (p.interest c.fd).isSome then .error .abort
      else .ok { p with interest := Function.update p.interest c.fd (some (c.id, c.events)) }
  | .mod =>
      if (p.interest c.fd).isSome then
        .ok { p with interest := Function.update p.interest c.fd (some (c.id, c.events)) }
      else .error .abort
  | .del => .ok { p with interest := Function.update p.interest c.fd none }

def updateChannel (p : EpollPoller) (c : Channel) : Except Fault (EpollPoller × Channel) :=
  match c.index with
  | .kNew => do
      let p := { p with channels := Function.update p.channels c.fd (some c.id) }
      let c := { c with index := .kAdded }
      return (← p.update .add c, c)
  | .kDeleted => do
      let c := { c with index := .kAdded }
      return (← p.update .add c, c)
  | .kAdded =>
      if c.isNoneEvent then do
        return (← p.update .del c, { c with index := .kDeleted })
      else do
        return (← p.update .mod c, c)

def removeChannel (p : EpollPoller) (c : Channel) : Except Fault (EpollPoller × Channel) :=
  let p := { p with channels := Function.update p.channels c.fd none }
  if c.index = .kAdded then do
    return (← p.update .del c, { c with index := .kNew })
  else
    return (p, { c with index := .kNew })

/-- `hasChannel`. -/
def hasChannel (p : EpollPoller) (c : Channel) : Bool := p.channels c.fd == some c.id

end EpollPoller

namespace Channel

/-! ### Changing the interest

Every change ends in `update()`, which reaches `EpollPoller::updateChannel` through the
loop; the poller is an argument here because the channel does not own it.
-/

/-- The tail of every `enable…` and `disable…`: the new mask, then `update()`. -/
def setEvents (c : Channel) (events : Events) (p : EpollPoller) :
    Except Fault (EpollPoller × Channel) :=
  p.updateChannel { c with events := events }

def enableReading (c : Channel) : EpollPoller → Except Fault (EpollPoller × Channel) :=
  c.setEvents (c.events ||| kReadEvent)

def disableReading (c : Channel) : EpollPoller → Except Fault (EpollPoller × Channel) :=
  c.setEvents (c.events &&& ~~~kReadEvent)

def enableWriting (c : Channel) : EpollPoller → Except Fault (EpollPoller × Channel) :=
  c.setEvents (c.events ||| kWriteEvent)

def disableWriting (c : Channel) : EpollPoller → Except Fault (EpollPoller × Channel) :=
  c.setEvents (c.events &&& ~~~kWriteEvent)

def disableAll (c : Channel) : EpollPoller → Except Fault (EpollPoller × Channel) :=
  c.setEvents kNoneEvent

def remove (c : Channel) (p : EpollPoller) : Except Fault (EpollPoller × Channel) :=
  p.removeChannel c

/-! ### The masks

What the bit operations do to the two questions the sources ask of a mask.
-/

@[simp] theorem has_zero (mask : Events) : Events.has 0#32 mask = false := by
  simp [Events.has]

theorem has_or_self {events mask : Events} (h : mask ≠ 0) :
    Events.has (events ||| mask) mask = true := by
  have habs : (events ||| mask) &&& mask = mask := by
    ext i hi
    simp only [BitVec.getElem_and, BitVec.getElem_or]
    cases events[i] <;> cases mask[i] <;> rfl
  simpa [Events.has, habs] using h

theorem has_andNot_self (events mask : Events) :
    Events.has (events &&& ~~~mask) mask = false := by
  have habs : (events &&& ~~~mask) &&& mask = 0 := by
    ext i hi
    simp
  simp [Events.has, habs]

/-- Asking for either of two bits is asking for one or the other. -/
theorem has_or (events mask mask' : Events) :
    Events.has events (mask ||| mask') = (events.has mask || events.has mask') := by
  have hdist : events &&& (mask ||| mask') = events &&& mask ||| events &&& mask' := by
    ext i hi
    simp only [BitVec.getElem_and, BitVec.getElem_or, Bool.and_or_distrib_left]
  have hzero : ∀ a b : Events, (a ||| b != 0) = (a != 0 || b != 0) := by
    intro a b
    rw [Bool.eq_iff_iff]
    simp only [bne_iff_ne, ne_eq, Bool.or_eq_true]
    rw [show (a ||| b = 0) ↔ a = 0 ∧ b = 0 from BitVec.or_eq_zero_iff]
    exact not_and_or
  simp only [Events.has, hdist, hzero]

theorem or_ne_zero {events mask : Events} (h : mask ≠ 0) : events ||| mask ≠ 0 := by
  intro h0
  have hself : Events.has (events ||| mask) mask = true := has_or_self h
  rw [h0] at hself
  simp at hself

/-- Asking for one bit is not affected by setting other bits. -/
theorem has_or_disjoint {events mask other : Events} (h : other &&& mask = 0) :
    Events.has (events ||| other) mask = Events.has events mask := by
  have habs : (events ||| other) &&& mask = events &&& mask := by
    ext i hi
    have hbit : (other[i] && mask[i]) = false := by
      rw [← BitVec.getElem_and, h]
      simp
    simp only [BitVec.getElem_and, BitVec.getElem_or, Bool.and_or_distrib_right, hbit,
      Bool.or_false]
  simp [Events.has, habs]

/-- Asking for one bit is not affected by clearing other bits. -/
theorem has_andNot_disjoint {events mask other : Events} (h : other &&& mask = 0) :
    Events.has (events &&& ~~~other) mask = Events.has events mask := by
  have habs : (events &&& ~~~other) &&& mask = events &&& mask := by
    ext i hi
    have hbit : (other[i] && mask[i]) = false := by
      rw [← BitVec.getElem_and, h]
      simp
    simp only [BitVec.getElem_and, BitVec.getElem_not]
    cases hm : mask[i]
    · simp
    · simp [show other[i] = false by simpa [hm] using hbit]
  simp [Events.has, habs]

end Channel

end Muduo
