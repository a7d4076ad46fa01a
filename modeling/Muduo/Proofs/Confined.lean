/-
What the members of a connection leave alone.

Sending, writing, closing and coming up change the state, the channel and the output buffer of
the connection and nothing else of it.  Its input buffer and its callbacks are as they were.
-/
import Muduo.Proofs.Handlers

namespace Muduo

namespace Ctx

variable {x x' y : Ctx} {mem : Mem} {call : SendCall} {w : WriteResult} {d : Direct}

/-- Of the connection at most the state, the channel and the output buffer are different. -/
def Confined (x x' : Ctx) : Prop :=
  x'.conn = { x.conn with
    state := x'.conn.state, channel := x'.conn.channel, outputBuffer := x'.conn.outputBuffer }

namespace Confined

theorem of_conn (h : x'.conn = x.conn) : Confined x x' := by
  unfold Confined
  rw [h]

theorem refl (x : Ctx) : Confined x x := of_conn rfl

theorem trans (h₁ : Confined x y) (h₂ : Confined y x') : Confined x x' := by
  unfold Confined at *
  rw [h₂, h₁]

theorem input (h : Confined x x') : x'.conn.inputBuffer = x.conn.inputBuffer := by
  unfold Confined at h
  rw [h]

theorem writeCompleteCallback (h : Confined x x') :
    x'.conn.writeCompleteCallback = x.conn.writeCompleteCallback := by
  unfold Confined at h
  rw [h]

/-! ### The members -/

theorem updating {f : Channel → EpollPoller → Except Fault (EpollPoller × Channel)}
    (h : x.updating f = .ok x') : Confined x x' := by
  obtain ⟨p, c, -, rfl⟩ := updating_eq_ok h
  rfl

theorem bufferRemaining (h : x.bufferRemaining mem call d = .ok x') : Confined x x' := by
  unfold Ctx.bufferRemaining at h
  split at h
  · obtain ⟨data, -, h⟩ := Except.bind_eq_ok.mp h
    obtain ⟨out, -, h⟩ := Except.bind_eq_ok.mp h
    have hbuffered : Confined x (((x.queueHighWaterMark d.remaining).setOutput out).record
        (.ran call (d.accepted ++ data))) := by
      refine (of_conn (queueHighWaterMark_conn d.remaining)).trans ?_
      rfl
    dsimp only at h
    split at h
    · exact hbuffered.trans (updating h)
    · rw [Except.pure_eq_ok] at h
      rw [← h]
      exact hbuffered
  · rw [Except.pure_eq_ok] at h
    rw [← h]
    exact .refl x

theorem directWrite (h : x.directWrite mem call w = .ok (x', d)) : Confined x x' := by
  obtain ⟨front, -, h⟩ := Except.bind_eq_ok.mp h
  simp only [Nat.zero_le, if_true] at h
  rw [Except.pure_eq_ok, Prod.mk.injEq] at h
  rw [← h.1]
  split
  · exact of_conn queueWriteComplete_conn
  · exact .refl x

theorem sendInLoop (h : x.sendInLoop mem call w = .ok x') : Confined x x' := by
  unfold Ctx.sendInLoop at h
  split at h
  · rw [Except.ok.injEq] at h
    rw [← h]
    exact .refl x
  · split at h
    · obtain ⟨⟨y, d⟩, hd, h⟩ := Except.bind_eq_ok.mp h
      exact (directWrite hd).trans (bufferRemaining h)
    · exact bufferRemaining h

theorem writeFinished (h : x.writeFinished = .ok x') : Confined x x' := by
  obtain ⟨y, hy, h⟩ := Except.bind_eq_ok.mp h
  rw [Except.pure_eq_ok] at h
  rw [← h]
  refine (updating hy).trans ?_
  split
  · exact of_conn (shutdownInLoop_conn.trans queueWriteComplete_conn)
  · exact of_conn queueWriteComplete_conn

theorem handleWrite (h : x.handleWrite w = .ok x') : Confined x x' := by
  unfold Ctx.handleWrite at h
  split at h
  · dsimp only at h
    split at h
    · split at h
      · exact (writeFinished h).trans (of_conn rfl)
      · rw [← Except.ok.inj h]
        rfl
    · rw [← Except.ok.inj h]
      rfl
  · rw [← Except.ok.inj h]
    exact .refl x

theorem handleClose {fs : List Frame} (h : x.handleClose = .ok (x', fs)) : Confined x x' := by
  obtain ⟨y, hy, h⟩ := Except.bind_eq_ok.mp h
  obtain ⟨z, hz, h⟩ := Except.bind_eq_ok.mp h
  rw [Except.pure_eq_ok, Prod.mk.injEq] at h
  obtain rfl := invokeConnectionCallback_eq_ok hz
  rw [← h.1]
  have hupdated : Confined (x.setState .kDisconnected) y := updating hy
  exact Confined.trans (y := x.setState .kDisconnected) rfl hupdated

theorem connectEstablished (h : x.connectEstablished = .ok x') : Confined x x' := by
  obtain ⟨y, hy, h⟩ := Except.bind_eq_ok.mp h
  obtain rfl := invokeConnectionCallback_eq_ok h
  have hsame := updating hy
  exact hsame

theorem destoryStore (h : x.destoryStore = .ok x') : Confined x x' := by
  obtain ⟨y, hy, h⟩ := Except.bind_eq_ok.mp h
  obtain rfl := invokeConnectionCallback_eq_ok h
  have hupdated : Confined (x.setState .kDisconnected) y := updating hy
  exact Confined.trans (y := x.setState .kDisconnected) rfl hupdated

theorem destoryRemove (h : x.destoryRemove = .ok x') : Confined x x' := by
  obtain ⟨y, hy, h⟩ := Except.bind_eq_ok.mp h
  rw [Except.pure_eq_ok] at h
  rw [← h]
  have hupdated : Confined x y := updating hy
  exact hupdated

end Confined

end Ctx

end Muduo
