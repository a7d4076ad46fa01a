/-
`EventLoopThread` of `EventLoopThread.cpp`, the variant that inherits from `Thread`.

There are the thread that runs `threadFunc`, with the loop on its stack, the owner that
calls `startLoop` and later destroys the object, and the other threads that got hold of the
loop.  `loop_` is a cell that holds the loop's address or null; it is read and written
atomically, and the destructor reads it twice, once for its `if` and once for the call.

`m_mutex` is locked by `threadFunc` only, around the last store to `loop_`; its unlock is
the last access `threadFunc` makes to the object.  The loop is destroyed after that, when
`threadFunc` returns, and a destructor that is inside `quit` by then goes on with a loop that is
gone.  `exiting_` is written and never read, and is left out.
-/
import Muduo.EventLoop

namespace Muduo

/-- Where the thread is in `threadFunc`. -/
inductive ThreadPc
  /-- `Thread::start` has not created the thread. -/
  | unstarted
  | created
  /-- The loop has been constructed; `threadInitCallback_` may run. -/
  | constructed
  /-- `loop_ = &loop` has been stored. -/
  | stored
  /-- `loop_created_promise_` has been set. -/
  | promised
  /-- Inside `loop.loop()`. -/
  | looping
  | returned
  /-- `m_mutex` is locked. -/
  | locked
  /-- `loop_ = nullptr` has been stored. -/
  | cleared
  /-- `m_mutex` is unlocked. -/
  | unlocked
  /-- The loop is destroyed and the thread has ended. -/
  | ended
  deriving DecidableEq, Repr

namespace ThreadPc

/-- The loop exists. -/
def hasLoop : ThreadPc → Bool
  | .unstarted => false
  | .created => false
  | .ended => false
  | _ => true

/-- `loop.loop()` has not been called yet. -/
def beforeLoop : ThreadPc → Bool
  | .unstarted => true
  | .created => true
  | .constructed => true
  | .stored => true
  | .promised => true
  | _ => false

/-- `loop.loop()` has not returned yet. -/
def beforeReturn : ThreadPc → Bool
  | .looping => true
  | pc => pc.beforeLoop

/-- `threadFunc` has made its last access to the object. -/
def lastAccessMade : ThreadPc → Bool
  | .unlocked => true
  | .ended => true
  | _ => false

end ThreadPc

/-- Where the owner is in `startLoop` or in the destructor. -/
inductive OwnerPc
  | idle
  /-- In `startLoop`, waiting for the promise. -/
  | starting
  /-- `startLoop` has returned. -/
  | started
  /-- In the destructor, at `if(loop_)`. -/
  | testing
  /-- `loop_` was not null; next it is read again. -/
  | reading
  /-- The second read was not null either; next is the call of `quit`. -/
  | calling
  /-- Inside `quit`, past its store. -/
  | quitting
  /-- In `join`. -/
  | joining
  /-- At the end of the destructor's body. -/
  | leaving
  /-- The destructor has returned. -/
  | destroyed
  /-- `quit` was called on what is no loop, or went on with a loop that was gone; nothing is
  defined any more. -/
  | undefined
  deriving DecidableEq, Repr

/-- What the destructor has done. -/
inductive DestructorEvent
  /-- It called `quit`, on a loop that existed or not. -/
  | quitCalled (alive : Bool)
  /-- Its call of `quit` went on, and the loop was gone. -/
  | loopGone
  /-- It returned, with the thread at this place. -/
  | returned (thread : ThreadPc)
  deriving DecidableEq, Repr

structure EventLoopThread (F : Type) where
  owner : Tid
  /-- The local `loop` of `threadFunc`. -/
  loop : EventLoop F
  thread : ThreadPc
  ownerPc : OwnerPc
  /-- `loop_` is not null. -/
  loopSet : Bool
  /-- `loop_created_promise_`. -/
  promiseSet : Bool
  log : List DestructorEvent

namespace EventLoopThread

variable {F : Type}

inductive Action (F : Type)
  /-- `startLoop` is called and creates the thread. -/
  | startLoop
  | startLoopReturn
  | construct
  | storeLoop
  | setPromise
  /-- `loop.loop()` is called and stores `m_quit = false`. -/
  | callLoop
  | lock
  | clearLoop
  | unlock
  /-- `threadFunc` returns. -/
  | finish
  /-- A step of the loop, or of a thread's call of its member functions. -/
  | use (a : EventLoop.Action F)
  /-- `~EventLoopThread` is called. -/
  | destroy
  | testLoop
  | readLoop
  /-- The destructor's call of `quit` stores. -/
  | quit
  | quitReturn
  | join
  /-- The destructor returns. -/
  | leave
  deriving DecidableEq, Repr

variable (s : EventLoopThread F)

/-- A thread may take this step of the loop: the loop's thread inside `threadInitCallback_` and
`loop.loop()`, the owner once it has the loop from `startLoop` and the others as long as the loop
exists, and the destructor when it is inside `quit`. -/
def mayUse (a : EventLoop.Action F) : Bool :=
  match a with
  | .queueInLoop t _ | .runInLoop t _ | .wakeup t | .quit t =>
      if t = s.loop.threadId then s.thread = .constructed ∨ s.thread = .looping
      else if t = s.owner then s.ownerPc = .started ∧ s.thread.hasLoop
      else s.thread.hasLoop
  | .test t | .write t =>
      if t = s.loop.threadId then s.thread = .constructed ∨ s.thread = .looping
      else if t = s.owner then s.ownerPc = .started ∧ s.thread.hasLoop ∨ s.ownerPc = .quitting
      else s.thread.hasLoop
  | .loop => false
  | _ => s.thread = .looping

/-- The loop has taken a step; when that was the return of `loop()`, so has `threadFunc`. -/
def withLoop (l : EventLoop F) : EventLoopThread F :=
  { s with
    loop := l
    thread := match s.thread, l.pc with
      | .looping, .outside => .returned
      | pc, _ => pc }

/-- A step of the loop has been taken, to `l`.  Nothing keeps the loop there for the destructor's
`quit`, which reads `m_threadId` and writes to the eventfd after its store. -/
def used (l : EventLoop F) : EventLoopThread F :=
  if s.thread.hasLoop then s.withLoop l
  else { s with ownerPc := .undefined, log := s.log ++ [.loopGone] }

/-- One step of `threadFunc`. -/
def threadStep : Action F → ThreadPc → Option (EventLoopThread F)
  | .construct, .created => some { s with thread := .constructed }
  | .storeLoop, .constructed =>
      if s.loop.calls s.loop.threadId = .idle then
        some { s with loopSet := true, thread := .stored }
      else none
  | .setPromise, .stored => some { s with promiseSet := true, thread := .promised }
  | .callLoop, .promised =>
      (s.loop.next .loop).map fun l => { s with loop := l, thread := .looping }
  | .lock, .returned => some { s with thread := .locked }
  | .clearLoop, .locked => some { s with loopSet := false, thread := .cleared }
  | .unlock, .cleared => some { s with thread := .unlocked }
  | .finish, .unlocked => some { s with thread := .ended }
  | _, _ => none

/-- One step of `startLoop` or of the destructor. -/
def ownerStep : Action F → OwnerPc → Option (EventLoopThread F)
  | .startLoop, .idle => some { s with ownerPc := .starting, thread := .created }
  | .startLoopReturn, .starting =>
      if s.promiseSet then some { s with ownerPc := .started } else none
  | .destroy, .started =>
      if s.loop.calls s.owner = .idle then some { s with ownerPc := .testing } else none
  | .testLoop, .testing =>
      some { s with ownerPc := if s.loopSet then .reading else .leaving }
  | .readLoop, .reading =>
      if s.loopSet then some { s with ownerPc := .calling }
      else some { s with ownerPc := .undefined, log := s.log ++ [.quitCalled false] }
  | .quit, .calling =>
      if s.thread.hasLoop then
        (s.loop.next (.quit s.owner)).map fun l =>
          { s with loop := l, ownerPc := .quitting, log := s.log ++ [.quitCalled true] }
      else some { s with ownerPc := .undefined, log := s.log ++ [.quitCalled false] }
  | .quitReturn, .quitting =>
      if s.loop.calls s.owner = .idle then some { s with ownerPc := .joining } else none
  | .join, .joining => if s.thread = .ended then some { s with ownerPc := .leaving } else none
  | .leave, .leaving =>
      some { s with ownerPc := .destroyed, log := s.log ++ [.returned s.thread] }
  | _, _ => none

def next (a : Action F) : Option (EventLoopThread F) :=
  match a with
  | .use b => if s.mayUse b then (s.loop.next b).map s.used else none
  | .construct | .storeLoop | .setPromise | .callLoop | .lock | .clearLoop | .unlock
  | .finish => s.threadStep a s.thread
  | _ => s.ownerStep a s.ownerPc

/-- The object as its constructor leaves it, with the thread `t` to be. -/
def new (owner t : Tid) : EventLoopThread F where
  owner := owner
  loop := .new t
  thread := .unstarted
  ownerPc := .idle
  loopSet := false
  promiseSet := false
  log := []

def lts : Lts (EventLoopThread F) (Action F) where
  init s := ∃ owner t, owner ≠ t ∧ s = new owner t
  step s a s' := s.next a = some s'

end EventLoopThread

end Muduo
