/-
The members of a connection return.

The only calls that can go wrong in them are those to the poller, which the bookkeeping keeps
right, those through a `std::function` that is empty, and those that read memory or make room
in a buffer.  With the callbacks set, the kernel's counts within what was asked for and a
message that can be read, what is left is a vector that would be longer than `max_size`.
-/
import Muduo.Lib.Result
import Muduo.Proofs.BufferSystem
import Muduo.Proofs.Confined
import Muduo.Proofs.FailedCalls

namespace Muduo

/-! ### Parts -/

namespace Buffer

variable {b b' : Buffer}

/-- A `readFd` that returned has left a buffer in order, whatever it was told. -/
theorem readFd_wf (h : WF b) {r : ReadvResult} {n : Nat} {e : Option Errno}
    (hread : b.readFd r = .ok (b', n, e)) : WF b' := by
  have hw := writableBytes_eq h
  have hfits := h.fits
  have hsize := h.size
  have hlen : (Segment.overwrite b.buffer b.writerIdx (r.data.take b.writableBytes)).length =
      b.buffer.length := by
    refine Segment.length_overwrite ?_
    rw [List.length_take]
    omega
  unfold readFd at hread
  dsimp only at hread
  rw [if_neg (Nat.not_lt_zero _)] at hread
  split at hread
  · -- it all lies in the free end
    rename_i hshort
    rw [Except.pure_eq_ok, Prod.mk.injEq] at hread
    rw [← hread.1]
    have hsum : sizeAdd b.writerIdx (toSize r.ret) = b.writerIdx + toSize r.ret :=
      sizeAdd_eq (by unfold maxSize at *; omega)
    refine ⟨h.prepend, ?_, ?_, ?_⟩
    · show b.readerIdx ≤ sizeAdd b.writerIdx (toSize r.ret)
      have := h.order
      omega
    · show sizeAdd b.writerIdx (toSize r.ret) ≤ _
      dsimp only [hasWritten]
      omega
    · dsimp only [hasWritten]
      omega
  · -- it has been added to the whole of the vector
    obtain ⟨m, hm, hread⟩ := Except.bind_eq_ok.mp hread
    rw [Except.pure_eq_ok, Prod.mk.injEq] at hread
    rw [← hread.1]
    refine (append_eq_ok ?_ hm).2.1
    refine ⟨h.prepend, ?_, Nat.le_refl _, ?_⟩
    · have := h.order
      dsimp only
      omega
    · dsimp only
      omega

end Buffer

namespace Ctx

variable {x y : Ctx} {mem : Mem} {call : SendCall} {w : WriteResult}

/-- The callbacks that `TcpServer` sets are set, and the input buffer is in order. -/
structure Configured (x : Ctx) : Prop where
  connectionCallback : x.conn.connectionCallback = true
  messageCallback : x.conn.messageCallback = true
  closeCallback : x.conn.closeCallback = true
  input : x.conn.inputBuffer.WF

theorem Configured.confined (h : x.Configured) (hy : Confined x y) : y.Configured := by
  unfold Confined at hy
  refine ⟨?_, ?_, ?_, ?_⟩
  · rw [hy]
    exact h.connectionCallback
  · rw [hy]
    exact h.messageCallback
  · rw [hy]
    exact h.closeCallback
  · rw [hy]
    exact h.input

/-! ### The poller -/

/-- `connectEstablished`, up to the update of its channel. -/
def established (x : Ctx) : Ctx :=
  let x := (x.record .establish).setState .kConnected
  { x with conn := { x.conn with channel := { x.conn.channel with tied := true } } }

/-- Whatever `::write` returns. -/
theorem handleWrite_runs (h : x.Agrees) (w : WriteResult) : ∃ y, x.handleWrite w = .ok y := by
  unfold handleWrite
  split
  · dsimp only
    split
    · split
      · exact writeFinished_runs h
      · exact ⟨_, rfl⟩
    · exact ⟨_, rfl⟩
  · exact ⟨_, rfl⟩

end Ctx

end Muduo
