/-
`EventLoop` of `EventLoop.cpp`: one loop, its thread, and the threads that use it.

Every store, test and system call that another thread can come between is a step of its
own: the push under the mutex, the test after it, the write to the eventfd, the read in
`handleRead`, the stores to `m_callingPendingFunctors`, the swap, the stores to and tests
of `m_quit`.  A thread inside `queueInLoop`, `wakeup` or `quit` is at a `LoopCall`, the
loop's thread is also at a `LoopPc`.

What the loop runs is user code: channel callbacks, functors, and the destructors of what
its functors bind.  In each of them, and outside `loop()`, the loop's own thread may make
the same calls as any other thread.  A functor is a value of an arbitrary type; what its
body does are the calls made while it runs.
-/
import Muduo.Lib.Lts
import Muduo.Basic
import Mathlib.Logic.Function.Basic

namespace Muduo

/-- A functor in the queue.  The number is its place in the order in which the pushes took
the mutex; it is for the log, the code does not have it. -/
structure Queued (F : Type) where
  number : Nat
  functor : F
  deriving DecidableEq, Repr

/-- Where the loop's thread is. -/
inductive LoopPc (F : Type)
  /-- Not inside `loop()`. -/
  | outside
  /-- At `while(!m_quit)`. -/
  | testing
  /-- In `epoll_wait`. -/
  | polling
  /-- In the `for` over `m_activeChannels`, between two of them. -/
  | dispatching
  /-- In the `handleEvent` of a channel other than `m_wakeupChannel`. -/
  | callback
  /-- In `doPendingFunctors`, before the swap. -/
  | swapping
  /-- In the `for` over `funcs`, between two of them. -/
  | batch
  /-- In a functor of the batch. -/
  | functor (f : Queued F)
  /-- At the end of `doPendingFunctors`, where `funcs` is destroyed. -/
  | releasing
  deriving DecidableEq, Repr

/-- User code is running, or may run. -/
def LoopPc.isUser {F : Type} : LoopPc F → Bool
  | .outside => true
  | .callback => true
  | .functor _ => true
  | .releasing => true
  | _ => false

/-- The functor of the batch that is running. -/
def LoopPc.running {F : Type} : LoopPc F → List (Queued F)
  | .functor f => [f]
  | _ => []

/-- Where a thread is inside a member function of the loop. -/
inductive LoopCall
  | idle
  /-- `queueInLoop` has pushed the functor of this number; next is its `if`. -/
  | pushed (number : Nat)
  /-- `quit` has stored; next is its `if`. -/
  | quitStored
  /-- In `wakeup`, before the write; the number is that of the push it is for. -/
  | waking (number : Option Nat)
  deriving DecidableEq, Repr

/-- What is in `m_activeChannels`. -/
inductive ActiveChannel
  | wakeup
  | other
  deriving DecidableEq, Repr

/-- What has happened to a loop, as its log records it. -/
inductive LoopEvent (F : Type)
  /-- `emplace_back`, under the mutex. -/
  | pushed (thread : Tid) (f : Queued F)
  /-- The `queueInLoop` of this push returned. -/
  | returned (number : Nat)
  /-- `runInLoop` ran the functor at once. -/
  | ranAtOnce (thread : Tid) (f : F)
  /-- `doPendingFunctors` swapped the queue out. -/
  | swapped
  /-- A functor of the batch ran to its end. -/
  | executed (thread : Tid) (f : Queued F)
  /-- `quit` stored `true`. -/
  | quit (thread : Tid)
  | loopReturned
  deriving DecidableEq, Repr

/-- The counter of an eventfd after a write of one.  A write that would take it above
`2^64 - 2` fails, and the descriptor is nonblocking. -/
def eventfdWrite (counter : Nat) : Nat :=
  if counter < 2 ^ 64 - 2 then counter + 1 else counter

structure EventLoop (F : Type) where
  threadId : Tid
  quit : Bool
  callingPendingFunctors : Bool
  pendingFunctors : List (Queued F)
  /-- The counter behind `m_wakeupFd`. -/
  wakeupFd : Nat
  pc : LoopPc F
  /-- What is left of `m_activeChannels`. -/
  activeChannels : List ActiveChannel
  /-- What is left of `funcs`. -/
  funcs : List (Queued F)
  calls : Tid → LoopCall
  log : List (LoopEvent F)

namespace EventLoop

variable {F : Type}

inductive Action (F : Type)
  /-- `queueInLoop(f)` is called and pushes. -/
  | queueInLoop (t : Tid) (f : F)
  /-- `runInLoop(f)` is called: it runs `f`, or pushes it as `queueInLoop` does. -/
  | runInLoop (t : Tid) (f : F)
  | wakeup (t : Tid)
  /-- `quit()` is called and stores. -/
  | quit (t : Tid)
  /-- The `if` of `queueInLoop` or `quit`. -/
  | test (t : Tid)
  /-- The write of `wakeup`. -/
  | write (t : Tid)
  /-- `loop()` is called and stores `m_quit = false`. -/
  | loop
  | testQuit
  /-- `epoll_wait` returns and `m_activeChannels` is filled. -/
  | poll (activeChannels : List ActiveChannel)
  | handleEvent
  /-- The callbacks of a channel return. -/
  | callbackEnd
  /-- `m_callingPendingFunctors = true`. -/
  | setCalling
  | swap
  | runFunctor
  | functorEnd
  /-- `m_callingPendingFunctors = false`. -/
  | clearCalling
  /-- `funcs` has been destroyed. -/
  | release
  deriving DecidableEq, Repr

/-- The loop as its constructor leaves it, on thread `t`. -/
def new (t : Tid) : EventLoop F where
  threadId := t
  quit := false
  callingPendingFunctors := false
  pendingFunctors := []
  wakeupFd := 0
  pc := .outside
  activeChannels := []
  funcs := []
  calls := fun _ => .idle
  log := []

variable (s : EventLoop F)

def isInLoopThread (t : Tid) : Bool := t == s.threadId

def record (e : LoopEvent F) : EventLoop F := { s with log := s.log ++ [e] }

def setCall (t : Tid) (c : LoopCall) : EventLoop F :=
  { s with calls := Function.update s.calls t c }

/-- A thread may call a member function: it is in none, and the loop's thread only from
user code. -/
def mayCall (t : Tid) : Bool :=
  s.calls t = .idle && (t != s.threadId || s.pc.isUser)

/-- The functors pushed so far, in order. -/
def pushed (log : List (LoopEvent F)) : List (Queued F) :=
  log.filterMap fun
    | .pushed _ f => some f
    | _ => none

/-- The functors of the queue that have run to their end, in order. -/
def executed (log : List (LoopEvent F)) : List (Queued F) :=
  log.filterMap fun
    | .executed _ f => some f
    | _ => none

/-- `queueInLoop` up to its `if`. -/
def push (t : Tid) (f : F) : EventLoop F :=
  let q : Queued F := ⟨(pushed s.log).length, f⟩
  ({ s with pendingFunctors := s.pendingFunctors ++ [q] }.setCall t (.pushed q.number)).record
    (.pushed t q)

/-- A call of a thread to `queueInLoop`, `wakeup` or `quit`, one step further. -/
def callStep (t : Tid) : Action F → LoopCall → Option (EventLoop F)
  | .test _, .pushed n =>
      if !s.isInLoopThread t ∨ s.callingPendingFunctors then
        some (s.setCall t (.waking (some n)))
      else some ((s.setCall t .idle).record (.returned n))
  | .test _, .quitStored =>
      if !s.isInLoopThread t then some (s.setCall t (.waking none))
      else some (s.setCall t .idle)
  | .write _, .waking number =>
      let s := { s with wakeupFd := eventfdWrite s.wakeupFd }.setCall t .idle
      match number with
      | some n => some (s.record (.returned n))
      | none => some s
  | _, _ => none

/-- `loop()` one step further. -/
def loopStep : Action F → LoopPc F → Option (EventLoop F)
  | .loop, .outside => some { s with quit := false, pc := .testing }
  | .testQuit, .testing =>
      if s.quit then some ({ s with pc := .outside }.record .loopReturned)
      else some { s with pc := .polling }
  | .poll activeChannels, .polling =>
      -- `m_wakeupChannel` is reported for reading only
      if .wakeup ∈ activeChannels → 0 < s.wakeupFd then
        some { s with activeChannels := activeChannels, pc := .dispatching }
      else none
  | .handleEvent, .dispatching =>
      match s.activeChannels with
      -- `handleRead`: the read resets the counter
      | .wakeup :: rest => some { s with activeChannels := rest, wakeupFd := 0 }
      | .other :: rest => some { s with activeChannels := rest, pc := .callback }
      | [] => none
  | .callbackEnd, .callback => some { s with pc := .dispatching }
  | .setCalling, .dispatching =>
      match s.activeChannels with
      | [] => some { s with callingPendingFunctors := true, pc := .swapping }
      | _ :: _ => none
  | .swap, .swapping =>
      some ({ s with funcs := s.pendingFunctors, pendingFunctors := [], pc := .batch }.record
        .swapped)
  | .runFunctor, .batch =>
      match s.funcs with
      | f :: rest => some { s with funcs := rest, pc := .functor f }
      | [] => none
  | .functorEnd, .functor f =>
      some ({ s with pc := .batch }.record (.executed s.threadId f))
  | .clearCalling, .batch =>
      match s.funcs with
      | [] => some { s with callingPendingFunctors := false, pc := .releasing }
      | _ :: _ => none
  | .release, .releasing => some { s with pc := .testing }
  | _, _ => none

/-- The loop after an action, if it can be taken. -/
def next (a : Action F) : Option (EventLoop F) :=
  match a with
  | .queueInLoop t f => if s.mayCall t then some (s.push t f) else none
  | .runInLoop t f =>
      if s.mayCall t then
        if s.isInLoopThread t then some (s.record (.ranAtOnce t f)) else some (s.push t f)
      else none
  | .wakeup t => if s.mayCall t then some (s.setCall t (.waking none)) else none
  | .quit t =>
      if s.mayCall t then
        some (({ s with quit := true }.setCall t .quitStored).record (.quit t))
      else none
  | .test t => s.callStep t a (s.calls t)
  | .write t => s.callStep t a (s.calls t)
  | _ => if s.calls s.threadId = .idle then s.loopStep a s.pc else none

/-- The system: a new loop, and the calls of all threads with the steps of its own. -/
def lts : Lts (EventLoop F) (Action F) where
  init s := ∃ t, s = new t
  step s a s' := s.next a = some s'

end EventLoop

end Muduo
