/-
`EventLoopThreadPool`.

Loops are pointers, and all that is asked of them is whether two are the same; `startLoop`
is the pointer that the `startLoop()` of the i-th thread returns.  `next_` is an `int`
that indexes a vector and is reduced by its `size_t` size, and every conversion on the
way is made.
-/
import Muduo.Basic

namespace Muduo

structure EventLoopThreadPool (Loop : Type) where
  baseLoop : Loop
  name : String
  started : Bool
  numThreads : Int
  next : Int
  /-- The names of the threads in `threads_`. -/
  threads : List String
  loops : List Loop
  deriving DecidableEq, Repr

namespace EventLoopThreadPool

variable {Loop : Type}

def new (baseLoop : Loop) (name : String) : EventLoopThreadPool Loop where
  baseLoop := baseLoop
  name := name
  started := false
  numThreads := 0
  next := 0
  threads := []
  loops := []

variable (p : EventLoopThreadPool Loop)

def setThreadNum (numThreads : Int) : EventLoopThreadPool Loop :=
  { p with numThreads := numThreads }

/-- `EventLoopThread_{name}-{i}`. -/
def subName (i : Nat) : String := "EventLoopThread_" ++ p.name ++ "-" ++ toString i

/-- `start`, and the loop that it calls `cb` on itself, if any. -/
def start (cb : Bool) (startLoop : Nat → Loop) : EventLoopThreadPool Loop × Option Loop :=
  let created := List.range p.numThreads.toNat
  ({ p with
      started := true
      threads := p.threads ++ created.map p.subName
      loops := p.loops ++ [p.baseLoop] ++ created.map startLoop },
    if p.numThreads = 0 ∧ cb then some p.baseLoop else none)

/-- `getNextLoop`: the loop, or a null pointer when the pool has not been started. -/
def getNextLoop : Except Fault (Option Loop × EventLoopThreadPool Loop) :=
  if p.loops.length = 1 then .ok (some p.baseLoop, p)
  else if p.loops ≠ [] then
    let next := if p.next = 0 then 1 else p.next
    -- `loops_[next_ ++]`, and then `next_ %= loops_.size()` in `size_t`
    match p.loops[toSize next]? with
    | some loop =>
        let next := toInt (next + 1)
        .ok (some loop, { p with next := toInt (toSize next % p.loops.length) })
    | none => .error .outOfBounds
  else .ok (none, p)

/-- What `k` calls of `getNextLoop` return, in order. -/
def nextLoops (p : EventLoopThreadPool Loop) :
    Nat → Except Fault (List (Option Loop) × EventLoopThreadPool Loop)
  | 0 => .ok ([], p)
  | k + 1 => do
      let (loops, p) ← p.nextLoops k
      let (loop, p) ← p.getNextLoop
      return (loops ++ [loop], p)

end EventLoopThreadPool

end Muduo
