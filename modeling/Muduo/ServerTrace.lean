/-
Running `TcpServer` on a list of actions.

Everything `Enabled` asks for can be looked up, so the step function is the system itself,
and a run is found by computing it.
-/
import Muduo.TcpServer

namespace Muduo

namespace TcpServer

variable {s s' : TcpServer} {a : Action}

/-- The state after an action. -/
def stepped (s : TcpServer) (a : Action) : Option TcpServer :=
  if s.Enabled a then (s.exec a).toOption else none

theorem stepped_sound (h : s.stepped a = some s') : lts.step s a s' := by
  unfold stepped at h
  by_cases hen : s.Enabled a
  · rw [if_pos hen] at h
    exact ⟨hen, Except.toOption_eq_some.mp h⟩
  · rw [if_neg hen] at h
    simp at h

/-- A server with one I/O loop, on threads 10 and 11, in a program whose memory cannot be
read. -/
def start : TcpServer where
  threadId l := 10 + l
  size := 2
  loops _ := .start
  next := 0
  nextConnId := 1
  connections := ∅
  writeCompleteCallback := false
  conns _ := none
  held := []
  mem _ := none
  log := []

theorem start_init : lts.init start where
  size := by decide
  threadId l _ l' _ h := Nat.add_left_cancel h
  loops _ := rfl
  next := rfl
  nextConnId := rfl
  connections := rfl
  conns _ := rfl
  held := rfl
  log := rfl

/-- The kernel has nothing to say. -/
def noIo : Io where
  write := { ret := 0, errno := .EWOULDBLOCK }
  readv := { ret := 0, data := [], errno := .EWOULDBLOCK }

/-- A loop's turn on `n` functors, none of which leaves frames. -/
def turn (l : LoopId) (n : Nat) : List Action :=
  [.poll l [] false, .swap l] ++ List.replicate n (.functor l noIo) ++ [.batchEnd l]

/-- Connection 1 is accepted, with descriptor 7, and comes up on the I/O loop. -/
def connecting : List Action :=
  [.poll 0 [] true, .accept 7, .swap 0, .batchEnd 0] ++ turn 1 1

/-- The I/O loop's turn on the peer's close. -/
def closing : List Action :=
  [.poll 1 [(7, EPOLLHUP)] false, .handleEvent 1 1] ++ List.replicate 5 (.frame 1 noIo) ++
    [.swap 1, .batchEnd 1]

/-- The I/O loop's turn on `connectDestoryed`. -/
def destroying : List Action :=
  [.poll 1 [] false, .swap 1, .functor 1 noIo, .frame 1 noIo]

/-- A run, found by computing it. -/
theorem exists_of_run (C : TcpServer → Action → Prop) [∀ s a, Decidable (C s a)]
    (as : List Action) (p : TcpServer → Prop) [DecidablePred p]
    (h : (Lts.run (Lts.guarded (fun s a => decide (C s a)) stepped) start as).any
      (fun s => decide (p s)) = true) :
    ∃ s, (lts.restrict C).Reachable s ∧ p s := by
  obtain ⟨s, hrun, hp⟩ := Lts.Run.of_run (T := lts) (I := fun _ => True)
    (fun _ _ _ _ hnext => ⟨stepped_sound hnext, trivial⟩)
    (fun _ _ _ hc => of_decide_eq_true hc) start_init trivial h
  exact ⟨s, ⟨_, hrun⟩, of_decide_eq_true hp⟩

end TcpServer

end Muduo
