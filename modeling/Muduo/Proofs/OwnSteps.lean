/-
What a loop gets to by itself.

Wherever its thread is, in a functor, in a callback, in the middle of a call: the thread's own
next steps take it through what is left of the batch, back to `epoll_wait`, and through the whole
queue, also when `epoll_wait` reports nothing.  `left` counts these steps, and each of them lowers
it.  A loop that has been told to quit returns from `loop()` first, and leaves its queue behind
until `loop()` is called again; that is why the steps here do not return from it.
-/
import Muduo.Proofs.EventLoop

namespace Muduo

/-- How many steps a call still takes, at most. -/
def LoopCall.left : LoopCall → Nat
  | .idle => 0
  | .waking _ => 1
  | .quitStored => 2
  | .pushed _ => 2

namespace EventLoop

variable {F : Type} {s s' : EventLoop F} {a : Action F}

/-- The loop has not been told to quit, or `loop()`, which forgets that, is still to be called. -/
def Unquit (s : EventLoop F) : Prop := s.quit = false ∨ s.pc = .outside

/-- A step of the loop's own thread that waits for nobody: it goes on with what it is in the middle
of, calls `loop()` where it is outside, and `epoll_wait` returns with nothing.  `loop()` does not
return. -/
def Own (s : EventLoop F) : Action F → Prop
  | .queueInLoop _ _ => False
  | .runInLoop _ _ => False
  | .wakeup _ => False
  | .quit _ => False
  | .test t => t = s.threadId
  | .write t => t = s.threadId
  | .poll activeChannels => activeChannels = []
  | .testQuit => s.quit = false
  | _ => True

/-- Nothing is in the queue or in the batch. -/
structure Drained (s : EventLoop F) : Prop where
  pending : s.pendingFunctors = []
  funcs : s.funcs = []
  running : s.pc.running = []

/-- How many steps of `loop()` are left until then. -/
def loopLeft (s : EventLoop F) : Nat :=
  let queue := 2 * s.pendingFunctors.length
  let active := 2 * s.activeChannels.length
  -- the batch, and with functors in the queue the turn after it
  let batch := 2 * s.funcs.length + if s.pendingFunctors = [] then 0 else queue + 6
  match s.pc with
  | .swapping => queue + 1
  | .dispatching => queue + active + 2
  | .callback => queue + active + 3
  | .polling => queue + 3
  | .testing => queue + 4
  | .outside => queue + 5
  | .releasing => queue + 5
  | .batch => batch
  | .functor _ => batch + 1

def left (s : EventLoop F) : Nat := (s.calls s.threadId).left + s.loopLeft

end EventLoop

end Muduo
