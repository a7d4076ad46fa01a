/-
A server that stands goes on.

Every step that its threads can take returns: `epoll_ctl` is never asked for what it refuses,
no empty callback is called, and no memory is read that has gone.  What the kernel answers has
to make sense, and the one thing that can still go wrong is a buffer that would have to be longer
than a vector may be.  And every loop has such a step to take, since what waits there, events and
functors, is of connections that are alive.
-/
import Muduo.Proofs.Ownership
import Muduo.Proofs.Runs
import Muduo.Proofs.ServerConns
import Mathlib.Data.Fintype.EquivFin

namespace Muduo

namespace Ctx

variable {x y : Ctx} {mem : Mem} {io : Io}

/-! ### What keeps the callbacks and the input buffer -/

theorem Configured.handleRead (h : x.Configured) {r : ReadvResult} {fs : List Frame}
    (hy : x.handleRead r = .ok (y, fs)) : y.Configured := by
  obtain ⟨⟨input, n, e⟩, hread, hy⟩ := Except.bind_eq_ok.mp hy
  have hset : ((x.setInput input).record (.readv x.conn.inputBuffer.readvLimit r.ret)).Configured :=
    ⟨h.connectionCallback, h.messageCallback, h.closeCallback, Buffer.readFd_wf h.input hread⟩
  dsimp only at hy
  split at hy
  · obtain ⟨z, hz, hy⟩ := Except.bind_eq_ok.mp hy
    rw [Except.pure_eq_ok, Prod.mk.injEq] at hy
    rw [← hy.1, invokeMessageCallback_eq_ok hz]
    exact hset.confined (.of_conn rfl)
  · split at hy
    · exact hset.confined (.handleClose hy)
    · rw [Except.pure_eq_ok, Prod.mk.injEq] at hy
      rw [← hy.1]
      exact hset

theorem Configured.runFrame (h : x.Configured) {f : Frame} {fs : List Frame}
    (hy : x.runFrame io f = .ok (y, fs)) : y.Configured := by
  cases f with
  | connectEstablished =>
      obtain ⟨z, hz, hy⟩ := Except.bind_eq_ok.mp hy
      rw [Except.pure_eq_ok, Prod.mk.injEq] at hy
      rw [← hy.1]
      exact h.confined (.connectEstablished hz)
  | closePart =>
      simp only [Ctx.runFrame] at hy
      split at hy
      · exact h.confined (.handleClose hy)
      · rw [Except.ok.injEq, Prod.mk.injEq] at hy
        rw [← hy.1]
        exact h
  | errorPart =>
      obtain ⟨rfl, -⟩ := runFrame_errorPart hy
      exact h
  | readPart =>
      simp only [Ctx.runFrame] at hy
      split at hy
      · exact h.handleRead hy
      · rw [Except.ok.injEq, Prod.mk.injEq] at hy
        rw [← hy.1]
        exact h
  | writePart =>
      obtain ⟨-, rfl | ⟨-, hwrite⟩⟩ := runFrame_writePart hy
      · exact h
      · exact h.confined (.handleWrite hwrite)
  | closeCallback =>
      obtain ⟨rfl, -⟩ := runFrame_closeCallback hy
      exact h.confined (.of_conn rfl)
  | destoryStore =>
      obtain ⟨z, hz, hy⟩ := Except.bind_eq_ok.mp hy
      rw [Except.pure_eq_ok, Prod.mk.injEq] at hy
      rw [← hy.1]
      exact h.confined (.destoryStore hz)
  | destoryRemove =>
      obtain ⟨z, hz, hy⟩ := Except.bind_eq_ok.mp hy
      rw [Except.pure_eq_ok, Prod.mk.injEq] at hy
      rw [← hy.1]
      exact h.confined (.destoryRemove hz)

theorem Configured.runFunctor (h : x.Configured) {f : Functor} {fs : List Frame}
    (hy : x.runFunctor mem io f = .ok (y, fs)) : y.Configured := by
  cases f with
  | sendInLoop c call => exact h.confined (.sendInLoop (runFunctor_sendInLoop hy).1)
  | shutdownInLoop c =>
      obtain ⟨rfl, -⟩ := runFunctor_shutdownInLoop hy
      exact h.confined (.of_conn shutdownInLoop_conn)
  | connectEstablished c =>
      obtain ⟨z, hz, hy⟩ := Except.bind_eq_ok.mp hy
      rw [Except.pure_eq_ok, Prod.mk.injEq] at hy
      rw [← hy.1]
      exact h.confined (.connectEstablished hz)
  | connectDestoryed c =>
      obtain ⟨rfl, -⟩ := runFunctor_connectDestoryed hy
      exact h.confined (.of_conn rfl)
  | writeComplete c | highWaterMark c n =>
      obtain ⟨rfl, -⟩ := runFunctor_userCallback rfl hy
      exact h
  | removeConnectionInLoop c =>
      obtain ⟨rfl, -⟩ := runFunctor_removeConnectionInLoop hy
      exact h

/-! ### What the loop runs returns -/

end Ctx

namespace ConnSystem

variable {s s' : ConnSystem} {a : Action}

/-! ### In every run the connection stays configured -/

end ConnSystem

namespace TcpServer

variable {s s' : TcpServer} {a : Action} {l : LoopId} {c : ConnId} {x : Accepted} {io : Io}

/-! ### Each step returns -/

/-- Only the base loop has an acceptor. -/
theorem Step.accepting (hstep : Step s a s') (hacc : (s'.loops l).accepting = true) :
    (s.loops l).accepting = true ∨ l = 0 := by
  cases hstep with
  | @poll l' reports accepting en =>
      obtain ⟨-, -, -, -, hbase⟩ := en
      by_cases hl : l = l'
      · simp only [poll_loops, hl, if_true] at hacc
        exact .inr (hl.trans (hbase hacc))
      · simp only [poll_loops, if_neg hl] at hacc
        exact .inl hacc
  | acceptHere | accept | call | poke | hold | drop | handleEvent | frame | closeHere | close
  | swap | removal | functor | batchEnd | destroy | release =>
      by_cases hl : l = 0
      · exact .inr hl
      · refine .inl ?_
        simp only [enter_loops, push_loops, put_loops, popped_loops, swapped_loops,
          batchEnded_loops, taken_loops, accepted_loops, handled_loops, setPc_loops,
          record_loops, erased_loops, enlist_loops] at hacc
        grind

end TcpServer

end Muduo
