/-
`EpollPoller::poll`, and the `for` of `EventLoop::loop` over what it leaves in
`m_activeChannels`.

`epoll_wait` gets the array `m_events` with its size as an `int`.  What it reports is an
argument here: some descriptors of the interest set, none of them twice and at most as many
as it was asked for, each with a mask; the entry it writes for one has the pointer that
`epoll_ctl` was given with it.  `fillActiveChannels` follows these pointers.

Between two polls the callbacks and the functors call whatever they like on any channel.  All
that is asked of them is what the connections keep to, whose destruction is a functor: a channel
that is still to be handled is not destroyed.
-/
import Muduo.Poller

namespace Muduo

/-- `struct epoll_event`, with the pointer as the channel it is to. -/
structure EpollEvent where
  events : Events
  ptr : ChannelId
  deriving DecidableEq, Repr

/-- An entry of a vector that has been resized. -/
def EpollEvent.zero : EpollEvent where
  events := 0
  ptr := 0

/-- How `epoll_wait` returns. -/
inductive PollResult
  /-- With a count above 0, for these descriptors. -/
  | events (reports : List (Fd × Events))
  | timeout
  /-- With -1; it is logged, whatever the error is. -/
  | failed
  deriving DecidableEq, Repr

structure PollLoop where
  system : PollerSystem
  /-- `m_events`. -/
  events : List EpollEvent
  /-- What is left of `m_activeChannels`. -/
  activeChannels : List ChannelId
  /-- What `epoll_wait` has reported so far. -/
  reported : List (Fd × Events)
  /-- The descriptor and `m_revents` of each channel whose `handleEvent` has been called. -/
  handled : List (Fd × Events)

namespace PollLoop

inductive Action
  /-- `poll`, which finds `m_activeChannels` cleared. -/
  | poll (r : PollResult)
  /-- The next turn of the `for`. -/
  | handleEvent
  /-- A call on a channel of the loop. -/
  | channel (a : PollerSystem.Action)

def kInitEventListSize : Nat := 16

variable (s : PollLoop)

/-- The `int` that `epoll_wait` is given as `maxevents`. -/
def maxevents : Int := toInt s.events.length

/-- The array after `epoll_wait` has written an entry for each report. -/
def written (reports : List (Fd × Events)) : List EpollEvent :=
  (reports.filterMap fun r => (s.system.poller.interest r.1).map fun e => ⟨r.2, e.1⟩) ++
    s.events.drop reports.length

/-- One turn of the `for` of `fillActiveChannels`. -/
def fillOne (i : Nat) : Except Fault PollLoop :=
  match s.events[i]? with
  | some ev =>
      match s.system.channels ev.ptr with
      | some c =>
          let c := { c with revents := ev.events }
          .ok { s with
            system := { s.system with
              channels := Function.update s.system.channels ev.ptr (some c) }
            activeChannels := s.activeChannels ++ [ev.ptr] }
      | none => .error .outOfBounds
  | none => .error .outOfBounds

def fillActiveChannels (numEvents : Nat) : Except Fault PollLoop :=
  (List.range numEvents).foldlM fillOne s

/-- The array doubles when it was filled to its end. -/
def grow (numEvents : Nat) : PollLoop :=
  if numEvents = s.events.length then
    { s with events := s.events ++ List.replicate s.events.length .zero }
  else s

/-- `m_activeChannels.clear()` and `poll`. -/
def poll : PollResult → Except Fault PollLoop
  | .events reports => do
      let s := { s with activeChannels := [], events := s.written reports }
      let s ← s.fillActiveChannels reports.length
      let s := s.grow reports.length
      return { s with reported := s.reported ++ reports }
  | .timeout => .ok { s with activeChannels := [] }
  | .failed => .ok { s with activeChannels := [] }

/-- `handleEvent` of the next channel. -/
def handleEvent : Except Fault PollLoop :=
  match s.activeChannels with
  | id :: rest =>
      match s.system.channels id with
      | some c =>
          .ok { s with activeChannels := rest, handled := s.handled ++ [(c.fd, c.revents)] }
      | none => .error .outOfBounds
  | [] => .ok s

/-- What `epoll_wait` may return. -/
def Reports : PollResult → Prop
  | .events reports => reports ≠ [] ∧ (reports.length : Int) ≤ s.maxevents ∧
      (reports.map Prod.fst).Nodup ∧
        ∀ r ∈ reports, (s.system.poller.interest r.1).isSome = true
  | _ => True

def Enabled : Action → Prop
  | .poll r => s.activeChannels = [] ∧ s.Reports r
  | .handleEvent => s.activeChannels ≠ []
  | .channel a => s.system.Enabled a ∧ ∀ id ∈ s.activeChannels, a ≠ .retire id

def exec : Action → Except Fault PollLoop
  | .poll r => s.poll r
  | .handleEvent => s.handleEvent
  | .channel a => (s.system.exec a).map fun system => { s with system := system }

/-- A poller that has just been constructed. -/
def new : PollLoop where
  system := { poller := .empty, channels := fun _ => none }
  events := List.replicate kInitEventListSize .zero
  activeChannels := []
  reported := []
  handled := []

/-- The system: an enabled action that ends without a fault. -/
def lts : Lts PollLoop Action where
  init s := s = new
  step s a s' := s.Enabled a ∧ s.exec a = .ok s'

end PollLoop

end Muduo
