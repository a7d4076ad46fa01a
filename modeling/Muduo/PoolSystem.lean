/-
The pool with its threads: `EventLoopThreadPool::start`, run against the `threadFunc` of each
thread it has created so far, `getNextLoop` after it, and the destruction of the pool.

The main thread is in one of these at a time.  In the `for` of `start` it makes an
`EventLoopThread`, whose `startLoop` creates the thread and waits for its promise; what goes
into `loops_` is what `loop_` holds when the wait is over.  The elements of `threads_` are
destroyed in their order, each destructor to its end before the next begins.  The threads,
and whoever has got hold of a loop, take their steps at any time.
-/
import Muduo.EventLoopThread
import Muduo.EventLoopThreadPool
import Muduo.Proofs.EventLoop

namespace Muduo

/-- An `EventLoop*`. -/
inductive LoopPtr
  | null
  /-- `baseLoop_`. -/
  | base
  /-- The local `loop` in the `threadFunc` of the i-th thread. -/
  | worker (i : Nat)
  deriving DecidableEq, Repr

/-- Where the main thread is. -/
inductive PoolPc
  | idle
  /-- In `start`, at the head of the `for` with this `i`. -/
  | creating (i : Nat)
  /-- In the `startLoop` of the i-th thread. -/
  | waiting (i : Nat)
  /-- `start` has returned. -/
  | started
  /-- In the destruction of `threads_`, with the elements before the i-th gone. -/
  | destroying (i : Nat)
  | destroyed
  deriving DecidableEq, Repr

/-- `start` has returned. -/
def PoolPc.afterStart : PoolPc → Bool
  | .started => true
  | .destroying _ => true
  | .destroyed => true
  | _ => false

structure PoolSystem (F : Type) where
  /-- The main thread. -/
  owner : Tid
  /-- Whether the `cb` given to `start` has a target. -/
  cb : Bool
  pool : EventLoopThreadPool LoopPtr
  pc : PoolPc
  /-- The objects that `threads_` points to. -/
  threads : List (EventLoopThread F)
  /-- The loops on which `start` has itself called `cb`. -/
  called : List LoopPtr
  /-- What the calls of `getNextLoop` have returned. -/
  handed : List (Option LoopPtr)

namespace PoolSystem

variable {F : Type}

inductive Action (F : Type)
  | start (cb : Bool)
  /-- The next `EventLoopThread` is made, and its `startLoop` creates the thread `t`. -/
  | create (t : Tid)
  /-- A step of the i-th thread, or of the main thread in a call of that object. -/
  | member (i : Nat) (a : EventLoopThread.Action F)
  | startReturn
  | getNextLoop
  /-- `~EventLoopThreadPool` is called. -/
  | destroy
  | destroyReturn
  deriving DecidableEq, Repr

variable (s : PoolSystem F)

/-- The kernel may give this id to a new thread. -/
def FreeId (t : Tid) : Prop :=
  t ≠ s.owner ∧ ∀ th ∈ s.threads, th.thread ≠ .ended → th.loop.threadId ≠ t

instance (t : Tid) : Decidable (s.FreeId t) :=
  inferInstanceAs (Decidable (_ ∧ _))

/-- The i-th thread may take this step now, as far as it is one of the main thread. -/
def mayStep (i : Nat) : EventLoopThread.Action F → Bool
  | .startLoop => false
  | .startLoopReturn => s.pc = .waiting i
  | .destroy => s.pc = .destroying i
  | .use b => b.caller ≠ some s.owner ∨ s.pc = .started ∨ s.pc = .destroying i
  | _ => true

/-- The i-th thread has taken a step from `th` to `th'`. -/
def withMember (i : Nat) (a : EventLoopThread.Action F) (th th' : EventLoopThread F) :
    PoolSystem F :=
  let s := { s with threads := s.threads.set i th' }
  match a with
  | .startLoopReturn =>
      let loop := if th.loopSet then .worker i else .null
      { s with pool := { s.pool with loops := s.pool.loops ++ [loop] }, pc := .creating (i + 1) }
  | .leave => { s with pc := .destroying (i + 1) }
  | _ => s

/-- One step of the main thread outside the objects of `threads_`. -/
def mainStep : Action F → PoolPc → Option (PoolSystem F)
  | .start cb, .idle =>
      let pool := { s.pool with started := true, loops := s.pool.loops ++ [s.pool.baseLoop] }
      some { s with cb := cb, pool := pool, pc := .creating 0 }
  | .create t, .creating i =>
      if (i : Int) < s.pool.numThreads ∧ s.FreeId t then
        ((EventLoopThread.new s.owner t).next .startLoop).map fun th =>
          { s with
            threads := s.threads ++ [th]
            pool := { s.pool with threads := s.pool.threads ++ [s.pool.subName i] }
            pc := .waiting i }
      else none
  | .startReturn, .creating i =>
      if (i : Int) < s.pool.numThreads then none
      else
        let called := if s.pool.numThreads = 0 ∧ s.cb then [s.pool.baseLoop] else []
        some { s with called := s.called ++ called, pc := .started }
  | .getNextLoop, .started =>
      match s.pool.getNextLoop with
      | .ok (loop, pool) => some { s with pool := pool, handed := s.handed ++ [loop] }
      | .error _ => none
  | .destroy, .started => some { s with pc := .destroying 0 }
  | .destroyReturn, .destroying i =>
      if i = s.threads.length then some { s with pc := .destroyed } else none
  | _, _ => none

def next (a : Action F) : Option (PoolSystem F) :=
  match a with
  | .member i b =>
      if s.mayStep i b then
        s.threads[i]?.bind fun th => (th.next b).map fun th' => s.withMember i b th th'
      else none
  | _ => s.mainStep a s.pc

/-- The pool as its constructor and `setThreadNum` leave it. -/
def new (owner : Tid) (name : String) (numThreads : Int) : PoolSystem F where
  owner := owner
  cb := false
  pool := (EventLoopThreadPool.new .base name).setThreadNum numThreads
  pc := .idle
  threads := []
  called := []
  handed := []

def lts : Lts (PoolSystem F) (Action F) where
  init s := ∃ owner name numThreads, -2 ^ 31 ≤ numThreads ∧ numThreads < 2 ^ 31 ∧
    s = new owner name numThreads
  step s a s' := s.next a = some s'

end PoolSystem

end Muduo
