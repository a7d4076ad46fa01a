/-
When `writeCompleteCallback_` and `m_highWaterMarkCallback` are queued.

Both functions decide from what they have at hand, the old length and the remaining
bytes, or the length after `retrieve`.  That this is the unsent output before and after
the step is the correctness of `append` and `retrieve`; that a write which empties
nothing tells nobody needs the write interest to be on only when there is unsent output.
-/
import Muduo.OutputSystem
import Muduo.Proofs.FailedCalls
import Muduo.Proofs.Shutdown

namespace Muduo

namespace Ctx

variable {x x' y : Ctx} {mem : Mem} {call : SendCall} {w : WriteResult} {d : Direct}

/-! ### What is queued -/

theorem queueWriteComplete_pending (h : x.conn.writeCompleteCallback = true) :
    x.queueWriteComplete.pending = x.pending ++ [.writeComplete x.conn.channel.id] := by
  unfold queueWriteComplete
  rw [if_pos h]
  rfl

theorem queueHighWaterMark_pending (h : x.conn.highWaterMarkCallback = true) (added : Nat) :
    (x.queueHighWaterMark added).pending = x.pending ++
      (if x.conn.outputBuffer.readableBytes < x.conn.highWaterMark ∧
          x.conn.highWaterMark ≤ sizeAdd x.conn.outputBuffer.readableBytes added then
        [.highWaterMark x.conn.channel.id (sizeAdd x.conn.outputBuffer.readableBytes added)]
      else []) := by
  unfold queueHighWaterMark
  simp only [h, and_true]
  by_cases hcross : x.conn.outputBuffer.readableBytes < x.conn.highWaterMark ∧
      x.conn.highWaterMark ≤ sizeAdd x.conn.outputBuffer.readableBytes added
  · rw [if_pos hcross, if_pos hcross.symm]
    rfl
  · rw [if_neg hcross, if_neg (fun h => hcross h.symm), List.append_nil]

theorem directWrite_pending (h : x.directWrite mem call w = .ok (x', d)) :
    x'.pending = if d.remaining = 0 then x.queueWriteComplete.pending else x.pending := by
  obtain ⟨front, -, h⟩ := Except.bind_eq_ok.mp h
  simp only [Nat.zero_le, if_true] at h
  rw [Except.pure_eq_ok, Prod.mk.injEq] at h
  obtain ⟨rfl, rfl⟩ := h
  split
  · exact queueWriteComplete_pending_congr rfl rfl rfl
  · rfl

theorem bufferRemaining_pending (hfault : d.faultError = false)
    (h : x.bufferRemaining mem call d = .ok x') :
    x'.pending = if 0 < d.remaining then (x.queueHighWaterMark d.remaining).pending
      else x.pending := by
  unfold bufferRemaining at h
  simp only [hfault, Bool.not_false, true_and] at h
  by_cases hpos : 0 < d.remaining
  · rw [if_pos hpos] at h ⊢
    obtain ⟨data, -, h⟩ := Except.bind_eq_ok.mp h
    obtain ⟨out, -, h⟩ := Except.bind_eq_ok.mp h
    split at h
    · obtain ⟨p, c, -, rfl⟩ := updating_eq_ok h
      rfl
    · rw [Except.pure_eq_ok] at h
      rw [← h]
      rfl
  · rw [if_neg hpos, Except.pure_eq_ok] at h
    rw [if_neg hpos, ← h]
    rfl

/-- What is buffered takes the unsent output from below the mark to the mark or above, or
nothing is queued. -/
theorem bufferRemaining_notified {front : List Byte} (hwf : x.conn.outputBuffer.WF)
    (hcb : x.conn.highWaterMarkCallback = true)
    (hfront : mem.read call.message front.length = .ok front) (hk : front.length ≤ call.len)
    (h : x.bufferRemaining mem call ⟨front.length, call.len - front.length, false, front⟩
      = .ok x') :
    x'.conn.outputBuffer.readableBytes =
        x.conn.outputBuffer.readableBytes + (call.len - front.length) ∧
      x'.pending = x.pending ++
        (if x.conn.outputBuffer.readableBytes < x.conn.highWaterMark ∧
            x.conn.highWaterMark ≤ x'.conn.outputBuffer.readableBytes then
          [.highWaterMark x.conn.channel.id x'.conn.outputBuffer.readableBytes]
        else []) := by
  have hpending := bufferRemaining_pending rfl h
  obtain ⟨rest, hread, -, hdone, hrest⟩ := bufferRemaining_rest hfront hk h
  have hlength : (front ++ rest).length = call.len := Mem.read_length hread
  rw [List.length_append] at hlength
  rcases eq_or_ne rest [] with rfl | hne
  · rw [List.length_nil] at hlength
    rw [hdone rfl, hpending, if_neg (by dsimp only; omega), if_neg (by omega)]
    exact ⟨by omega, (List.append_nil _).symm⟩
  · obtain ⟨hwf', hcontent⟩ := Buffer.append_spec hwf (hrest hne).2
    have hunsent : x'.conn.outputBuffer.readableBytes =
        x.conn.outputBuffer.readableBytes + (call.len - front.length) := by
      rw [← Buffer.length_content hwf', hcontent, List.length_append, Buffer.length_content hwf]
      omega
    have hlt := Buffer.readableBytes_lt hwf'
    have hpos : 0 < call.len - front.length := by
      have := List.length_pos_iff.mpr hne
      omega
    have hsum : sizeAdd x.conn.outputBuffer.readableBytes (call.len - front.length) =
        x'.conn.outputBuffer.readableBytes := by
      rw [hunsent]
      exact sizeAdd_eq (by omega)
    rw [hpending, if_pos hpos, queueHighWaterMark_pending hcb, hsum]
    exact ⟨hunsent, rfl⟩

/-- `handleWrite` tells the user that it has written the last byte. -/
theorem handleWrite_pending (hwriting : x.conn.channel.isWriting = true)
    (h : x.handleWrite w = .ok x') :
    x'.pending = if 0 < toSize w.ret ∧
        (x.conn.outputBuffer.retrieve (toSize w.ret)).readableBytes = 0 then
      x.queueWriteComplete.pending else x.pending := by
  have hn : (x.conn.outputBuffer.writeFd w).1 = toSize w.ret := by simp [Buffer.writeFd]
  unfold handleWrite at h
  rw [if_pos hwriting] at h
  simp only [hn, record_conn, setOutput_output] at h
  by_cases hpos : 0 < toSize w.ret
  · rw [if_pos hpos] at h
    by_cases hempty : (x.conn.outputBuffer.retrieve (toSize w.ret)).readableBytes = 0
    · rw [if_pos hempty] at h
      rw [if_pos ⟨hpos, hempty⟩, writeFinished_pending h]
      exact queueWriteComplete_pending_congr rfl rfl rfl
    · rw [if_neg hempty, Except.ok.injEq] at h
      rw [if_neg (fun hboth => hempty hboth.2), ← h]
      rfl
  · rw [if_neg hpos, Except.ok.injEq] at h
    rw [if_neg (fun hboth => hpos hboth.1), ← h]
    rfl

/-- Every byte taken has been written exactly when no output is unsent. -/
theorem Flow.written_eq_taken_iff (h : x.Flow) :
    written x.log = taken x.log ↔ x.conn.outputBuffer.readableBytes = 0 := by
  rw [← h.conserved, ← Buffer.content_eq_nil_iff h.wf]
  exact List.self_eq_append_right

/-! ### The callbacks stay set -/

/-- Both callbacks of the output are set. -/
def Notifies (x : Ctx) : Prop :=
  x.conn.writeCompleteCallback = true ∧ x.conn.highWaterMarkCallback = true

theorem Notifies.of_conn (h : x.Notifies) (hconn : x'.conn = x.conn) : x'.Notifies := by
  unfold Notifies
  rw [hconn]
  exact h

theorem Notifies.updating {f : Channel → EpollPoller → Except Fault (EpollPoller × Channel)}
    (h : x.Notifies) (hx : x.updating f = .ok x') : x'.Notifies := by
  obtain ⟨p, c, -, rfl⟩ := updating_eq_ok hx
  exact h

theorem Notifies.bufferRemaining (h : x.Notifies) (hx : x.bufferRemaining mem call d = .ok x') :
    x'.Notifies := by
  unfold Ctx.bufferRemaining at hx
  split at hx
  · obtain ⟨data, -, hx⟩ := Except.bind_eq_ok.mp hx
    obtain ⟨out, -, hx⟩ := Except.bind_eq_ok.mp hx
    have hout : (((x.queueHighWaterMark d.remaining).setOutput out).record
        (.ran call (d.accepted ++ data))).Notifies := by
      show (x.queueHighWaterMark d.remaining).Notifies
      exact h.of_conn (queueHighWaterMark_conn _)
    dsimp only at hx
    split at hx
    · exact hout.updating hx
    · rw [Except.pure_eq_ok] at hx
      rw [← hx]
      exact hout
  · rw [Except.pure_eq_ok] at hx
    rw [← hx]
    exact h

theorem Notifies.directWrite (h : x.Notifies) (hx : x.directWrite mem call w = .ok (x', d)) :
    x'.Notifies := by
  obtain ⟨front, -, hx⟩ := Except.bind_eq_ok.mp hx
  simp only [Nat.zero_le, if_true] at hx
  rw [Except.pure_eq_ok, Prod.mk.injEq] at hx
  rw [← hx.1]
  split
  · exact Notifies.of_conn (x := x) h queueWriteComplete_conn
  · exact h

theorem Notifies.sendInLoop (h : x.Notifies) (hx : x.sendInLoop mem call w = .ok x') :
    x'.Notifies := by
  unfold Ctx.sendInLoop at hx
  split at hx
  · rw [Except.ok.injEq] at hx
    rw [← hx]
    exact h
  · split at hx
    · obtain ⟨⟨y, d⟩, hd, hx⟩ := Except.bind_eq_ok.mp hx
      exact (h.directWrite hd).bufferRemaining hx
    · exact h.bufferRemaining hx

theorem Notifies.writeFinished (h : x.Notifies) (hx : x.writeFinished = .ok x') :
    x'.Notifies := by
  obtain ⟨y, hy, hx⟩ := Except.bind_eq_ok.mp hx
  have hqueued := (h.updating hy).of_conn queueWriteComplete_conn
  rw [Except.pure_eq_ok] at hx
  rw [← hx]
  split
  · exact hqueued.of_conn shutdownInLoop_conn
  · exact hqueued

theorem Notifies.handleWrite (h : x.Notifies) (hx : x.handleWrite w = .ok x') :
    x'.Notifies := by
  unfold Ctx.handleWrite at hx
  split at hx
  · dsimp only at hx
    split at hx
    · split at hx
      · refine Notifies.writeFinished ?_ hx
        exact h
      · rw [Except.ok.injEq] at hx
        rw [← hx]
        exact h
    · rw [Except.ok.injEq] at hx
      rw [← hx]
      exact h
  · rw [Except.ok.injEq] at hx
    rw [← hx]
    exact h

end Ctx

namespace OutputSystem

open Ctx

variable {x x' : Ctx} {a : OutputAction} {mem : Mem} {call : SendCall} {w : WriteResult}

theorem wrote_append {es : List Entry} (h : x'.log = x.log ++ es) :
    wrote x x' = es.any Entry.isWrite := by
  unfold wrote
  rw [h, List.drop_left]

/-- A step that neither writes nor sends tells nobody. -/
theorem notified_of_not (hwrote : wrote x x' = false) (hsend : a.isSend = false) :
    notified x a x' = [] := by
  unfold notified
  rw [hwrote, hsend]
  simp

/-! ### Every reachable state -/

/-- What every reachable state has. -/
structure Ready (x : Ctx) : Prop where
  up : x.conn.state = .kConnected ∨ x.conn.state = .kDisconnecting
  notifies : x.Notifies
  flow : x.Flow
  sane : SaneWrites x.log
  writing : x.WritingIffUnsent

theorem Ready.not_disconnected (h : Ready x) : x.conn.state ≠ .kDisconnected := by
  rcases h.up with hup | hup
  · rw [hup]
    decide
  · rw [hup]
    decide

theorem ready_of_init (h : Init x) : Ready x := by
  obtain ⟨initialSize, houtput⟩ := h.output
  have hcontent : x.conn.outputBuffer.content = [] := by rw [houtput, Buffer.content_new]
  refine ⟨h.up, ⟨h.writeComplete, h.highWaterMark⟩, ⟨?_, ?_, ?_⟩, ?_, ?_⟩
  · rw [houtput]
    exact Buffer.WF.new initialSize
  · unfold Ctx.pipe
    rw [hcontent, h.log]
    rfl
  · intro call bytes hmem
    rw [h.log] at hmem
    cases hmem
  · intro e he
    rw [h.log] at he
    cases he
  · unfold WritingIffUnsent
    simp [h.writing, hcontent]

/-- The log of `sendInLoop`: a write when it goes to the socket first. -/
theorem sendInLoop_saneWrites (h : Ready x) (hen : Enabled x (.sendInLoop mem call w))
    (hx : x.sendInLoop mem call w = .ok x') : SaneWrites x'.log := by
  obtain ⟨hlen, hret⟩ := hen
  obtain ⟨front, rest, hread, hlog, -⟩ :=
    sendInLoop_took hlen h.not_disconnected (fun _ => hret) hx
  have hlength : (front ++ rest).length = call.len := Mem.read_length hread
  rw [List.length_append] at hlength
  rcases hlog with ⟨hlog, -⟩ | ⟨hlog, -⟩
  · rw [hlog, saneWrites_append]
    refine ⟨h.sane, ?_⟩
    intro e he
    rcases List.mem_pair.mp he with rfl | rfl
    · exact ⟨Int.natCast_nonneg _, by omega⟩
    · trivial
  · rw [hlog, saneWrites_append]
    refine ⟨h.sane, ?_⟩
    intro e he
    rw [List.mem_singleton.mp he]
    trivial

theorem handleWrite_saneWrites (h : Ready x) (hen : Enabled x (.handleWrite w))
    (hwriting : x.conn.channel.isWriting = true) (hx : x.handleWrite w = .ok x') :
    SaneWrites x'.log := by
  have hentry : SaneWrites (x.log ++ [x.writeEntry w]) := by
    rw [saneWrites_append]
    refine ⟨h.sane, ?_⟩
    intro e he
    rw [List.mem_singleton.mp he]
    exact hen
  rcases handleWrite_cases hwriting hx with hlog | hlast
  · rw [hlog]
    exact hentry
  · rw [hlast.log, saneWrites_append]
    refine ⟨hentry, ?_⟩
    intro e he
    rw [List.mem_singleton.mp he]
    trivial

theorem Ready.step (h : Ready x) (hstep : lts.step x a x') : Ready x' := by
  obtain ⟨hen, hx⟩ := hstep
  cases a with
  | sendInLoop mem call w =>
    have hx : x.sendInLoop mem call w = .ok x' := hx
    have hsane := sendInLoop_saneWrites h hen hx
    obtain ⟨bytes, k, -, hsend⟩ :=
      sendInLoop_sane h.flow.wf hen.1 h.not_disconnected hx hsane
    refine ⟨?_, h.notifies.sendInLoop hx, h.flow.sendInLoop hen.1 hx hsane, hsane,
      hsend.writingIffUnsent h.writing⟩
    rw [(sendInLoop_outputStep hx).state]
    exact h.up
  | handleWrite w =>
    have hx : x.handleWrite w = .ok x' := hx
    cases hwriting : x.conn.channel.isWriting with
    | false =>
      rw [handleWrite_not_writing hwriting, Except.ok.injEq] at hx
      rw [← hx]
      exact h
    | true =>
      have hsane := handleWrite_saneWrites h hen hwriting hx
      obtain ⟨ending, hdrain⟩ := handleWrite_sane h.flow.wf hwriting hx hsane
      refine ⟨?_, h.notifies.handleWrite hx, h.flow.handleWrite hx hsane, hsane,
        hdrain.writingIffUnsent hwriting h.writing⟩
      rw [(handleWrite_outputStep hx).state]
      exact h.up
  | setHighWaterMarkCallback highWatermark =>
    obtain rfl := Except.ok.inj hx
    exact ⟨h.up, ⟨h.notifies.1, rfl⟩, ⟨h.flow.wf, h.flow.conserved, h.flow.sized⟩, h.sane,
      h.writing⟩
  | shutdownStore =>
    obtain rfl := Except.ok.inj hx
    refine ⟨.inr rfl, h.notifies, h.flow.quiet shutdownStore_quiet, ?_, h.writing⟩
    show SaneWrites (x.log ++ [.stored .kDisconnecting])
    rw [saneWrites_append]
    refine ⟨h.sane, ?_⟩
    intro e he
    rw [List.mem_singleton.mp he]
    trivial

theorem ready_of_reachable (h : lts.Reachable x) : Ready x := by
  refine h.induct ?_ ?_
  · intro x h0
    exact ready_of_init h0
  · intro x a x' _ hx hstep
    exact hx.step hstep

/-! ### Every step -/

theorem sendInLoop_notified (h : Ready x) (hen : Enabled x (.sendInLoop mem call w))
    (hx : x.sendInLoop mem call w = .ok x') :
    x'.pending = x.pending ++ notified x (.sendInLoop mem call w) x' := by
  obtain ⟨hwc, hhw⟩ := h.notifies
  obtain ⟨hlen, hret⟩ := hen
  have hflow : x'.Flow :=
    h.flow.sendInLoop hlen hx (sendInLoop_saneWrites h ⟨hlen, hret⟩ hx)
  have hwritten := hflow.written_eq_taken_iff
  unfold notified
  unfold Ctx.sendInLoop at hx
  rw [if_neg h.not_disconnected] at hx
  split at hx
  · -- the message goes to the socket first
    rename_i hfree
    obtain ⟨⟨y, d⟩, hd, hx⟩ := Except.bind_eq_ok.mp hx
    have hdirect := directWrite_pending hd
    obtain ⟨front, hk, hfront, hconn, hlog, rfl⟩ := directWrite_front hlen hret hd
    obtain ⟨bytes, hlog'⟩ := bufferRemaining_log hx
    obtain ⟨hunsent, hpending⟩ := bufferRemaining_notified (by rw [hconn]; exact h.flow.wf)
      (by rw [hconn]; exact hhw) hfront hk hx
    have hwrote : wrote x x' = true := by
      rw [wrote_append (by rw [hlog', hlog, List.append_assoc])]
      rfl
    rw [hconn] at hunsent hpending
    have hall : written x'.log = taken x'.log ↔ call.len - front.length = 0 := by
      rw [hwritten, hunsent, hfree.2, Nat.zero_add]
    have hmine : y.pending = x.pending ++
        (if written x'.log = taken x'.log then [.writeComplete x.conn.channel.id] else []) := by
      rw [hdirect]
      by_cases hrem : call.len - front.length = 0
      · rw [if_pos hrem, if_pos (hall.mpr hrem), queueWriteComplete_pending hwc]
      · rw [if_neg hrem, if_neg (fun heq => hrem (hall.mp heq)), List.append_nil]
    rw [hpending, hmine, List.append_assoc]
    simp only [hwrote, OutputAction.isSend, true_and]
  · -- the message goes behind what is unsent
    obtain ⟨bytes, hlog⟩ := bufferRemaining_log hx
    have hfront : mem.read call.message ([] : List Byte).length = .ok [] := rfl
    obtain ⟨-, hpending⟩ := bufferRemaining_notified h.flow.wf hhw hfront (Nat.zero_le _) hx
    have hwrote : wrote x x' = false := by
      rw [wrote_append hlog]
      rfl
    rw [hpending]
    simp only [hwrote, OutputAction.isSend, true_and, Bool.false_eq_true, false_and, if_false,
      List.nil_append]

theorem handleWrite_notified (h : Ready x) (hen : Enabled x (.handleWrite w))
    (hx : x.handleWrite w = .ok x') :
    x'.pending = x.pending ++ notified x (.handleWrite w) x' := by
  cases hwriting : x.conn.channel.isWriting with
  | false =>
    rw [handleWrite_not_writing hwriting, Except.ok.injEq] at hx
    subst hx
    rw [notified_of_not (wrote_append (List.append_nil x.log).symm) rfl, List.append_nil]
  | true =>
    unfold notified
    simp only [OutputAction.isSend, Bool.false_eq_true, false_and, if_false, List.append_nil]
    have hsane := handleWrite_saneWrites h hen hwriting hx
    have hwritten := (h.flow.handleWrite hx hsane).written_eq_taken_iff
    obtain ⟨ending, hdrain⟩ := handleWrite_sane h.flow.wf hwriting hx hsane
    have hwrote : wrote x x' = true := wrote_append hdrain.log
    have hlt := Buffer.readableBytes_lt h.flow.wf
    have hn : toSize w.ret = w.ret.toNat := toSize_eq hen.1 hen.2 (by omega)
    have hcontent : x'.conn.outputBuffer.content =
        x.conn.outputBuffer.content.drop w.ret.toNat := congrArg Pipe.held hdrain.pipe
    have hempty : (x.conn.outputBuffer.retrieve w.ret.toNat).readableBytes = 0 ↔
        x'.conn.outputBuffer.readableBytes = 0 := by
      rw [← Buffer.content_eq_nil_iff (h.flow.wf.retrieve _), ← Buffer.content_eq_nil_iff hdrain.wf,
        Buffer.content_retrieve h.flow.wf, hcontent]
    have hsent : x'.conn.outputBuffer.readableBytes = 0 → 0 < w.ret.toNat := by
      intro hnone
      rw [← Buffer.content_eq_nil_iff hdrain.wf, hcontent] at hnone
      rcases Nat.eq_zero_or_pos w.ret.toNat with hzero | hpos
      · -- nothing was written, and there was unsent output
        rw [hzero, List.drop_zero] at hnone
        exact absurd hnone (h.writing.mp hwriting)
      · exact hpos
    rw [handleWrite_pending hwriting hx, hn]
    by_cases hnone : x'.conn.outputBuffer.readableBytes = 0
    · rw [if_pos ⟨hsent hnone, hempty.mpr hnone⟩, if_pos ⟨hwrote, hwritten.mpr hnone⟩,
        queueWriteComplete_pending h.notifies.1]
    · rw [if_neg (fun hboth => hnone (hempty.mp hboth.2)),
        if_neg (fun hboth => hnone (hwritten.mp hboth.2)), List.append_nil]

/--
Each step of a run queues what it should and nothing else: `m_highWaterMarkCallback` by
exactly those calls of `sendInLoop` that take the unsent output from below the mark to the
mark or above, with the amount it then has, and `writeCompleteCallback_` by exactly those
steps that write and leave nothing unsent.
-/
theorem notified_exactly (h : lts.Reachable x) (hstep : lts.step x a x') :
    x'.pending = x.pending ++ notified x a x' := by
  have hready := ready_of_reachable h
  obtain ⟨hen, hx⟩ := hstep
  cases a with
  | sendInLoop mem call w => exact sendInLoop_notified hready hen hx
  | handleWrite w => exact handleWrite_notified hready hen hx
  | setHighWaterMarkCallback highWatermark =>
    have hx := Except.ok.inj hx
    have hwrote : wrote x x' = false := by
      rw [← hx]
      exact wrote_append (List.append_nil x.log).symm
    rw [notified_of_not hwrote rfl, List.append_nil, ← hx]
  | shutdownStore =>
    have hx := Except.ok.inj hx
    have hwrote : wrote x x' = false := by
      rw [← hx]
      have hlog : x.shutdownStore.log = x.log ++ [.stored .kDisconnecting] := rfl
      exact wrote_append hlog
    rw [notified_of_not hwrote rfl, List.append_nil, ← hx]
    rfl

/-- A connection that is up, with a high-water mark of two bytes. -/
def marked : Ctx :=
  { nothingLeft with conn := nothingLeft.conn.setHighWaterMarkCallback true 2 }

/-- Of three bytes one is written, and two are unsent. -/
theorem notified_exactly_mark : ∃ x',
    marked.sendInLoop fourBytes threeByteCall ⟨1, .EWOULDBLOCK⟩ = .ok x' ∧
    x'.pending = [.highWaterMark 0 2] := by
  have hinit : lts.init marked :=
    ⟨.inl rfl, rfl, rfl, by decide, ⟨Buffer.kInitialSize, rfl⟩, rfl⟩
  have hrun : ((marked.sendInLoop fourBytes threeByteCall ⟨1, .EWOULDBLOCK⟩).toOption.any
      fun x' => notified marked (.sendInLoop fourBytes threeByteCall ⟨1, .EWOULDBLOCK⟩) x' =
        [.highWaterMark 0 2]) = true := by
    decide +kernel
  obtain ⟨x', hx', hp⟩ := (Option.any_eq_true _ _).mp hrun
  have hok := Except.toOption_eq_some.mp hx'
  have hstep : lts.step marked (.sendInLoop fourBytes threeByteCall ⟨1, .EWOULDBLOCK⟩) x' :=
    ⟨⟨by decide, by decide, by decide⟩, hok⟩
  refine ⟨x', hok, ?_⟩
  rw [notified_exactly (Lts.Reachable.of_init hinit) hstep, of_decide_eq_true hp]
  rfl

end OutputSystem

end Muduo
