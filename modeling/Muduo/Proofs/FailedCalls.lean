/-
What becomes of a failed system call.

`writeFd` and `readFd` hand on the result of the call as a `size_t`.  A -1 is then
2^64 - 1, larger than any count, and the tests for a failure never hold: the functions
above them go on as if everything had been done.  `sendInLoop` makes the same conversion
itself, and its difference `len - nwrote` is then one byte more than the message.
-/
import Muduo.Proofs.TcpConnection
import Muduo.Proofs.BufferCalls

namespace Muduo

theorem toSize_failed : toSize (-1) = 2 ^ 64 - 1 := by decide

namespace Buffer

variable {b : Buffer}

theorem readableBytes_le (b : Buffer) : b.readableBytes ≤ 2 ^ 64 - 1 := by
  unfold readableBytes sizeSub
  omega

/-- Retrieving the count of a failed call is retrieving everything. -/
theorem retrieve_failed (b : Buffer) : b.retrieve (toSize (-1)) = b.retrieveAll := by
  have hle := readableBytes_le b
  unfold retrieve
  rw [toSize_failed, if_neg (by omega)]

@[simp] theorem readableBytes_retrieveAll (b : Buffer) : b.retrieveAll.readableBytes = 0 := by
  exact sizeSub_eq (Nat.le_refl kCheapPrepend) (by decide) |>.trans (Nat.sub_self _)

end Buffer

namespace Ctx

variable {x x' : Ctx} {w : WriteResult}

/-! ### A failed write -/

/-- What a failed write should leave: all the output, the state and the write interest,
with no completion queued and no half-close. -/
structure Unwritten (x x' : Ctx) : Prop where
  content : x'.conn.outputBuffer.content = x.conn.outputBuffer.content
  state : x'.conn.state = x.conn.state
  writing : x'.conn.channel.isWriting = true
  pending : ∃ fs, x'.pending = x.pending ++ fs ∧ ∀ c, .writeComplete c ∉ fs
  log : ∃ es, x'.log = x.log ++ es ∧ ∀ s unsent, .shutdownWrite s unsent ∉ es

/-- The connection as `handleWrite` passes it on after a failed write: nothing is left to
send. -/
def discarded (x : Ctx) (w : WriteResult) : Ctx :=
  (x.record (x.writeEntry w)).setOutput x.conn.outputBuffer.retrieveAll

@[simp] theorem discarded_output : (x.discarded w).conn.outputBuffer =
    x.conn.outputBuffer.retrieveAll := rfl
@[simp] theorem discarded_state : (x.discarded w).conn.state = x.conn.state := rfl

/-- A failed write is taken for the one that finishes the output. -/
theorem handleWrite_failed (hwriting : x.conn.channel.isWriting = true) (hret : w.ret = -1) :
    x.handleWrite w = (x.discarded w).writeFinished := by
  have hn : (x.conn.outputBuffer.writeFd w).1 = toSize (-1) := by simp [Buffer.writeFd, hret]
  have hpos : 0 < toSize (-1) := by decide
  unfold handleWrite
  rw [if_pos hwriting]
  simp only [hn]
  rw [if_pos hpos, record_conn, Buffer.retrieve_failed, setOutput_output,
    if_pos (Buffer.readableBytes_retrieveAll _)]
  rfl

/-- `writeFinished` of an agreeing channel returns. -/
theorem writeFinished_runs (hag : x.Agrees) : ∃ x', x.writeFinished = .ok x' := by
  obtain ⟨p, hset, -⟩ := Channel.Agrees.setEvents hag
    (x.conn.channel.events &&& ~~~Channel.kWriteEvent)
  unfold writeFinished updating Channel.disableWriting
  rw [hset]
  exact ⟨_, rfl⟩

/-- After a failed write `handleWrite` never leaves what it should: the output is gone and
the write interest with it, the completion is queued, and a connection that is disconnecting
half-closes. -/
theorem failed_write_discards (hwriting : x.conn.channel.isWriting = true)
    (houtput : x.conn.outputBuffer.content ≠ []) (hret : w.ret = -1) :
    (∀ x', x.handleWrite w = .ok x' → ¬ Unwritten x x' ∧
      x'.conn.outputBuffer.content ≠ x.conn.outputBuffer.content ∧
      x'.conn.channel.isWriting = false ∧
      (x.conn.state = .kDisconnecting → .shutdownWrite .kDisconnecting [] ∈ x'.log)) ∧
    (x.Agrees → ∃ x', x.handleWrite w = .ok x' ∧
      (x.conn.writeCompleteCallback = true →
        x'.pending = x.pending ++ [.writeComplete x.conn.channel.id])) := by
  rw [handleWrite_failed hwriting hret]
  refine ⟨?_, ?_⟩
  · intro x' hfin
    obtain ⟨hnot, hbuf, hlog⟩ := writeFinished_spec hfin
    have hlost : x'.conn.outputBuffer.content ≠ x.conn.outputBuffer.content := by
      rw [hbuf, discarded_output, Buffer.content_retrieveAll]
      exact houtput.symm
    refine ⟨fun hkept => hlost hkept.content, hlost, hnot, ?_⟩
    intro hstate
    rw [hlog, discarded_output, Buffer.content_retrieveAll, discarded_state, if_pos hstate]
    simp
  · intro hag
    obtain ⟨x', hfin⟩ := writeFinished_runs (x := x.discarded w) hag
    refine ⟨x', hfin, ?_⟩
    intro hcallback
    have hset : (x.discarded w).conn.writeCompleteCallback = true := hcallback
    rw [writeFinished_pending hfin, queueWriteComplete, if_pos hset]
    rfl

/-- A connection that is disconnecting, with one byte to send. -/
def oneByteLeft : Ctx where
  conn :=
    { TcpConnection.new 0 7 true with
      state := .kDisconnecting
      channel := { Channel.new 0 7 with
        events := Channel.kReadEvent ||| Channel.kWriteEvent
        index := .kAdded
        tied := true }
      outputBuffer := { Buffer.new Buffer.kInitialSize with writerIdx := 9 } }
  poller :=
    { channels := fun fd => if fd = 7 then some 0 else none
      interest := fun fd =>
        if fd = 7 then some (0, Channel.kReadEvent ||| Channel.kWriteEvent) else none }
  pending := []
  log := []

theorem content_oneByteLeft : oneByteLeft.conn.outputBuffer.content = [0] := by
  decide

theorem agrees_oneByteLeft : oneByteLeft.Agrees :=
  ⟨rfl, rfl⟩

/-- The write would block, and the byte is thrown away, the user told that it was written,
and the connection half-closed. -/
theorem failed_write_discards_byte : ∃ x',
    oneByteLeft.handleWrite ⟨-1, .EWOULDBLOCK⟩ = .ok x' ∧
    x'.pending = [.writeComplete 0] ∧ .shutdownWrite .kDisconnecting [] ∈ x'.log := by
  have hout : oneByteLeft.conn.outputBuffer.content ≠ [] := by
    rw [content_oneByteLeft]
    simp
  have hfail := failed_write_discards (x := oneByteLeft) (w := ⟨-1, .EWOULDBLOCK⟩)
    (by decide) hout rfl
  obtain ⟨x', hok, hpending⟩ := hfail.2 agrees_oneByteLeft
  exact ⟨x', hok, hpending rfl, (hfail.1 x' hok).2.2.2 rfl⟩

/-- That write does not leave what it should. -/
theorem failed_write_not_kept : ∃ x', oneByteLeft.handleWrite ⟨-1, .EWOULDBLOCK⟩ = .ok x' ∧
    ¬ Unwritten oneByteLeft x' := by
  obtain ⟨x', hfin⟩ := writeFinished_runs
    (x := oneByteLeft.discarded ⟨-1, .EWOULDBLOCK⟩) agrees_oneByteLeft
  refine ⟨x', (handleWrite_failed (by decide) rfl).trans hfin, ?_⟩
  intro hkept
  have hnot := (writeFinished_spec hfin).1
  rw [hkept.writing] at hnot
  simp at hnot

/-! ### A failed direct write -/

/-- The memory of a call's message is the same in both. -/
def SameMessage (mem mem' : Mem) (call : SendCall) : Prop :=
  ∀ a, Covers call.message call.len a → mem' (a % 2 ^ 64) = mem (a % 2 ^ 64)

/-- What a failed direct write should leave: nothing for a peer that is gone, and else the
message, to be written later. -/
structure MessageKept (x : Ctx) (mem : Mem) (call : SendCall) (w : WriteResult) (x' : Ctx) :
    Prop where
  fault : w.errno = .EPIPE ∨ w.errno = .ECONNRESET →
    x'.conn.outputBuffer = x.conn.outputBuffer ∧ x'.conn.channel.isWriting = false
  kept : ¬ (w.errno = .EPIPE ∨ w.errno = .ECONNRESET) → 0 < call.len →
    mem.read call.message call.len = .ok x'.conn.outputBuffer.content ∧
      x'.conn.channel.isWriting = true ∧
      ∃ fs, x'.pending = x.pending ++ fs ∧ ∀ c, .writeComplete c ∉ fs

/-- `sendInLoop` returns with the message kept, and what is in memory outside the message
makes no difference. -/
def KeepsMessage (x : Ctx) (mem : Mem) (call : SendCall) (w : WriteResult) : Prop :=
  (∃ x', x.sendInLoop mem call w = .ok x' ∧ MessageKept x mem call w x') ∧
    ∀ mem', SameMessage mem mem' call → x.sendInLoop mem' call w = x.sendInLoop mem call w

/-- The connection after the failed write. -/
def attempted (x : Ctx) (call : SendCall) (w : WriteResult) : Ctx :=
  let y := x.record (.write call.len w.ret [])
  if sizeSub call.len (2 ^ 64 - 1) = 0 then y.queueWriteComplete else y

@[simp] theorem attempted_conn {call : SendCall} : (x.attempted call w).conn = x.conn := by
  unfold attempted
  dsimp only
  split
  · rw [queueWriteComplete_conn, record_conn]
  · rfl

/-- The -1 is taken for a count: one byte more than the message is left to send, from one
byte before the message on. -/
theorem sendInLoop_failed {mem : Mem} {call : SendCall} (hstate : x.conn.state ≠ .kDisconnected)
    (hnot : x.conn.channel.isWriting = false) (hempty : x.conn.outputBuffer.readableBytes = 0)
    (hret : w.ret = -1) : x.sendInLoop mem call w =
      (x.attempted call w).bufferRemaining mem call
        ⟨2 ^ 64 - 1, sizeSub call.len (2 ^ 64 - 1), false, []⟩ := by
  have hsize : toSize w.ret = 2 ^ 64 - 1 := by
    rw [hret]
    exact toSize_failed
  have haccepted : w.ret.toNat = 0 := by
    rw [hret]
    rfl
  unfold sendInLoop
  rw [if_neg hstate, if_pos ⟨by simp [hnot], hempty⟩]
  simp only [directWrite, haccepted, Mem.read, hsize, bind, Except.bind, pure, Except.pure,
    Nat.zero_le, if_true]
  rfl

theorem remaining_failed {len : Nat} (hlen : len < 2 ^ 64 - 1) :
    sizeSub len (2 ^ 64 - 1) = len + 1 := by
  unfold sizeSub
  omega

/-- The byte before a message is not one of its bytes. -/
theorem sameMessage_poke {mem : Mem} {call : SendCall} (hlen : call.len < 2 ^ 64)
    (b : Option Byte) :
    SameMessage mem (mem.poke (sizeAdd call.message (2 ^ 64 - 1)) b) call := by
  rintro a ⟨i, hi, hia⟩
  have hne : a % 2 ^ 64 ≠ sizeAdd call.message (2 ^ 64 - 1) % 2 ^ 64 := by
    unfold sizeAdd
    omega
  unfold Mem.poke
  rw [if_neg hne]

/-- With a byte to buffer, what comes before the message decides whether `sendInLoop` returns. -/
theorem failed_reads_before {mem : Mem} {call : SendCall}
    (hstate : x.conn.state ≠ .kDisconnected) (hnot : x.conn.channel.isWriting = false)
    (hempty : x.conn.outputBuffer.readableBytes = 0) (hret : w.ret = -1)
    (hlen : call.len < 2 ^ 64 - 1)
    (hreleased : mem (sizeAdd call.message (2 ^ 64 - 1) % 2 ^ 64) = none) :
    x.sendInLoop mem call w = .error .outOfBounds := by
  have hread : mem.read (sizeAdd call.message (2 ^ 64 - 1)) (call.len + 1) =
      .error .outOfBounds := by
    simp only [Mem.read, hreleased]
  rw [sendInLoop_failed hstate hnot hempty hret, remaining_failed hlen]
  unfold bufferRemaining
  rw [if_pos ⟨rfl, Nat.succ_pos _⟩]
  simp only [hread, bind, Except.bind]

/-- At the one length for which the -1 leaves nothing to buffer, the connection stays as it
is. -/
theorem sendInLoop_failed_full {mem : Mem} {call : SendCall}
    (hstate : x.conn.state ≠ .kDisconnected) (hnot : x.conn.channel.isWriting = false)
    (hempty : x.conn.outputBuffer.readableBytes = 0) (hret : w.ret = -1)
    (hlen : call.len = 2 ^ 64 - 1) :
    x.sendInLoop mem call w = .ok ((x.attempted call w).record (.ran call [])) := by
  have hnone : sizeSub call.len (2 ^ 64 - 1) = 0 := by
    rw [hlen]
    rfl
  rw [sendInLoop_failed hstate hnot hempty hret, hnone]
  unfold bufferRemaining
  rw [if_neg (fun h => absurd h.2 (Nat.lt_irrefl 0))]
  rfl

/-- After a failed direct write `sendInLoop` leaves what it should only for a peer that is
gone and a message of 2^64 - 1 bytes.  For any other length it reads the byte before the
message, and returns, if it does, with that byte ahead of the message in the output. -/
theorem failed_send_keeps_iff {mem : Mem} {call : SendCall}
    (hstate : x.conn.state = .kConnected ∨ x.conn.state = .kDisconnecting)
    (hnot : x.conn.channel.isWriting = false)
    (hempty : x.conn.outputBuffer.readableBytes = 0) (hlen : call.len < 2 ^ 64)
    (hret : w.ret = -1) :
    x.KeepsMessage mem call w ↔
      call.len = 2 ^ 64 - 1 ∧ (w.errno = .EPIPE ∨ w.errno = .ECONNRESET) := by
  have hup : x.conn.state ≠ .kDisconnected := by
    rcases hstate with hs | hs <;> simp [hs]
  refine ⟨?_, ?_⟩
  · rintro ⟨⟨x', hok, hkept⟩, hsame⟩
    have hfull : call.len = 2 ^ 64 - 1 := by
      by_contra hne
      have hother := hsame _ (sameMessage_poke hlen none)
      rw [failed_reads_before hup hnot hempty hret (by omega) (by simp [Mem.poke]), hok] at hother
      simp at hother
    refine ⟨hfull, ?_⟩
    by_contra herrno
    have hwriting := (hkept.kept herrno (by omega)).2.1
    rw [sendInLoop_failed_full hup hnot hempty hret hfull, Except.ok.injEq] at hok
    rw [← hok, record_conn, attempted_conn, hnot] at hwriting
    simp at hwriting
  · rintro ⟨hfull, herrno⟩
    refine ⟨⟨_, sendInLoop_failed_full hup hnot hempty hret hfull, ?_, ?_⟩, ?_⟩
    · intro _
      rw [record_conn, attempted_conn]
      exact ⟨rfl, hnot⟩
    · intro hother
      exact absurd herrno hother
    · intro mem' _
      rw [sendInLoop_failed_full hup hnot hempty hret hfull,
        sendInLoop_failed_full hup hnot hempty hret hfull]

/-- A connection that is up, with nothing to send. -/
def nothingLeft : Ctx where
  conn :=
    { TcpConnection.new 0 7 true with
      state := .kConnected
      channel := { Channel.new 0 7 with
        events := Channel.kReadEvent
        index := .kAdded
        tied := true } }
  poller :=
    { channels := fun fd => if fd = 7 then some 0 else none
      interest := fun fd => if fd = 7 then some (0, Channel.kReadEvent) else none }
  pending := []
  log := []

/-- The bytes 88, 104, 105, 33 at the addresses from 99 on. -/
def fourBytes : Mem := fun a => if 99 ≤ a then [88, 104, 105, 33][a - 99]? else none

/-- The last three of them, as a message. -/
def threeByteCall : SendCall := ⟨1, 100, 3, [104, 105, 33]⟩

/-- The peer has reset the connection, and the message is not dropped. -/
theorem failed_send_keeps_iff_reset :
    ¬ nothingLeft.KeepsMessage fourBytes threeByteCall ⟨-1, .ECONNRESET⟩ := by
  intro hkeeps
  have hfull := ((failed_send_keeps_iff (.inl rfl) (by decide) (by decide) (by decide) rfl).mp
    hkeeps).1
  exact absurd hfull (by decide)

/-- The write would block, and what is buffered begins with the byte before the message. -/
theorem failed_send_read_before : ∃ x',
    nothingLeft.sendInLoop fourBytes threeByteCall ⟨-1, .EWOULDBLOCK⟩ = .ok x' ∧
    fourBytes.read threeByteCall.message threeByteCall.len = .ok [104, 105, 33] ∧
    x'.conn.outputBuffer.content = [88, 104, 105, 33] ∧
    ¬ nothingLeft.KeepsMessage fourBytes threeByteCall ⟨-1, .EWOULDBLOCK⟩ := by
  have hrun : ((nothingLeft.sendInLoop fourBytes threeByteCall ⟨-1, .EWOULDBLOCK⟩).toOption.any
      fun x' => x'.conn.outputBuffer.content = [88, 104, 105, 33]) = true := by
    decide +kernel
  obtain ⟨x', hx', hp⟩ := (Option.any_eq_true _ _).mp hrun
  have hok := Except.toOption_eq_some.mp hx'
  have hcontent : x'.conn.outputBuffer.content = [88, 104, 105, 33] := of_decide_eq_true hp
  have hread : fourBytes.read threeByteCall.message threeByteCall.len =
      .ok [104, 105, 33] := by rfl
  refine ⟨x', hok, hread, hcontent, ?_⟩
  rintro ⟨⟨y, hy, hkept⟩, -⟩
  obtain rfl : x' = y := by
    rw [hok, Except.ok.injEq] at hy
    exact hy
  have hbuffered := (hkept.kept (by decide) (by decide)).1
  rw [hread, hcontent] at hbuffered
  simp at hbuffered

/-! ### A failed read -/

/-- What `readFd` should do when `::readv` fails: return with the buffer as it was, and hand
on the cause. -/
def UnchangedBy (b : Buffer) (r : ReadvResult) : Prop :=
  ∃ b' n, b.readFd r = .ok (b', n, some r.errno) ∧ b'.readerIdx = b.readerIdx ∧
    b'.writerIdx = b.writerIdx ∧ b'.buffer.length = b.buffer.length ∧ b'.content = b.content

/-- What `handleRead` should do then: call `handleError`, and neither a callback nor
`handleClose`. -/
def ReportsError (x : Ctx) (r : ReadvResult) : Prop :=
  ∃ input, x.handleRead r = .ok (((x.setInput input).record
    (.readv x.conn.inputBuffer.readvLimit r.ret)).handleError, [])

theorem handleRead_error {r : ReadvResult} {e : Fault}
    (h : x.conn.inputBuffer.readFd r = .error e) : x.handleRead r = .error e := by
  unfold handleRead
  rw [h]
  rfl

/-- When `readFd` returns, it returns the count as it was given it, and has stored no cause. -/
theorem readFd_result {b b' : Buffer} {r : ReadvResult} {n : Nat} {e : Option Errno}
    (h : b.readFd r = .ok (b', n, e)) : n = toSize r.ret ∧ e = none := by
  unfold Buffer.readFd at h
  dsimp only at h
  rw [if_neg (Nat.not_lt_zero _)] at h
  split at h
  · rw [Except.pure_eq_ok, Prod.mk.injEq, Prod.mk.injEq] at h
    exact ⟨h.2.1.symm, h.2.2.symm⟩
  · obtain ⟨m, -, h⟩ := Except.bind_eq_ok.mp h
    rw [Except.pure_eq_ok, Prod.mk.injEq, Prod.mk.injEq] at h
    exact ⟨h.2.1.symm, h.2.2.symm⟩

/-- With the -1 taken for a count, `handleRead` comes to the message callback if to anything. -/
theorem not_reportsError {r : ReadvResult} (hr : r.Failed) : ¬ x.ReportsError r := by
  rintro ⟨input, h⟩
  unfold handleRead at h
  obtain ⟨⟨b, n, e⟩, hread, h⟩ := Except.bind_eq_ok.mp h
  obtain ⟨rfl, -⟩ := readFd_result hread
  have hpos : 0 < toSize r.ret := by
    rw [hr.1]
    decide
  dsimp only at h
  rw [if_pos hpos] at h
  obtain ⟨y, hy, h⟩ := Except.bind_eq_ok.mp h
  rw [Except.pure_eq_ok, Prod.mk.injEq] at h
  unfold invokeMessageCallback at hy
  split at hy
  · rw [Except.ok.injEq] at hy
    have hlog := congrArg (fun z : Ctx => z.log.length) (hy.trans h.1)
    simp [handleError, setInput] at hlog
  · simp at hy

/-- After a failed `::readv` neither function does what it should, whatever the buffer holds:
`readFd` stores no cause, and `handleRead` does not come to `handleError`.  On a buffer that the
calls come to, `readFd` goes on to append from outside `extrabuf` and never returns. -/
theorem failed_read_faults {r : ReadvResult} (hr : r.Failed) :
    (∀ b : Buffer, ¬ UnchangedBy b r) ∧ (∀ x : Ctx, ¬ x.ReportsError r) ∧
    ∀ s : BufferSystem, (BufferSystem.calls.restrict BufferSystem.SumFits).Reachable s →
      ∃ e, s.buffer.readFd r = .error e ∧
        ∀ x : Ctx, x.conn.inputBuffer = s.buffer → x.handleRead r = .error e := by
  refine ⟨?_, fun x => not_reportsError hr, ?_⟩
  · rintro b ⟨b', n, hread, -⟩
    have hnone := (readFd_result hread).2
    simp at hnone
  · intro s hs
    obtain ⟨e, herr⟩ := Buffer.readFd_failed (BufferSystem.wf_of_calls hs) hr
    refine ⟨e, herr, ?_⟩
    intro x hx
    rw [← hx] at herr
    exact handleRead_error herr

/-- Three bytes are readable when the read fails. -/
theorem failed_read_faults_readable : ∃ s,
    (BufferSystem.calls.restrict BufferSystem.SumFits).Reachable s ∧
    s.buffer.content = [104, 105, 33] ∧ ¬ UnchangedBy s.buffer ⟨-1, [], .ECONNRESET⟩ ∧
    ∃ e, s.buffer.readFd ⟨-1, [], .ECONNRESET⟩ = .error e := by
  obtain ⟨s, hr, hp⟩ := BufferSystem.exists_of_calls [.append [104, 105, 33] 3]
    (fun s => s.buffer.content = [104, 105, 33]) (by decide +kernel)
  obtain ⟨hchanged, -, hfaults⟩ := failed_read_faults (r := ⟨-1, [], .ECONNRESET⟩) ⟨rfl, rfl⟩
  obtain ⟨e, herr, -⟩ := hfaults s hr
  exact ⟨s, hr, of_decide_eq_true hp, hchanged _, e, herr⟩

/-- The first read of a new connection would block, and `readFd` does not return. -/
theorem failed_read_not_returned :
    (∃ e, (Buffer.new Buffer.kInitialSize).readFd ⟨-1, [], .EWOULDBLOCK⟩ = .error e) ∧
    ¬ UnchangedBy (Buffer.new Buffer.kInitialSize) ⟨-1, [], .EWOULDBLOCK⟩ := by
  obtain ⟨e, hfault⟩ := Buffer.readFd_failed (r := ⟨-1, [], .EWOULDBLOCK⟩)
    (Buffer.WF.new Buffer.kInitialSize) ⟨rfl, rfl⟩
  refine ⟨⟨e, hfault⟩, ?_⟩
  rintro ⟨b', n, hok, -⟩
  rw [hfault] at hok
  simp at hok

end Ctx

end Muduo
