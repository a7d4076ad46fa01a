/-
What each piece of `TcpConnection` can do, said once.

`OutputStep` is what `sendInLoop`, `handleWrite` and `shutdownInLoop` have in common
whatever the kernel answers: they move bytes, change only the write interest, queue only
user callbacks, and log only output entries.  Under sane write results the same functions
are moves of the byte pipe made of the log and the output buffer, which is the second
half of the file.  No later proof unfolds a member function.
-/
import Muduo.Proofs.Buffer
import Muduo.Proofs.Channel
import Muduo.Lib.Pipe
import Muduo.History

namespace Muduo

/-- A functor that only calls back into user code. -/
def Functor.isUserCallback : Functor → Bool
  | .writeComplete _ => true
  | .highWaterMark _ _ => true
  | _ => false

namespace Ctx

variable {x x' : Ctx}

@[simp] theorem record_conn (e : Entry) : (x.record e).conn = x.conn := rfl
@[simp] theorem record_poller (e : Entry) : (x.record e).poller = x.poller := rfl
@[simp] theorem record_pending (e : Entry) : (x.record e).pending = x.pending := rfl
@[simp] theorem record_log (e : Entry) : (x.record e).log = x.log ++ [e] := rfl

@[simp] theorem queueInLoop_pending (f : Functor) :
    (x.queueInLoop f).pending = x.pending ++ [f] := rfl

@[simp] theorem setState_state (s : StateE) : (x.setState s).conn.state = s := rfl
@[simp] theorem setState_channel (s : StateE) :
    (x.setState s).conn.channel = x.conn.channel := rfl
@[simp] theorem setState_poller (s : StateE) : (x.setState s).poller = x.poller := rfl
@[simp] theorem setState_pending (s : StateE) : (x.setState s).pending = x.pending := rfl
@[simp] theorem setState_log (s : StateE) :
    (x.setState s).log = x.log ++ [.stored s] := rfl

@[simp] theorem setOutput_output (b : Buffer) : (x.setOutput b).conn.outputBuffer = b := rfl

/-- The three records of the connection's channel agree. -/
def Agrees (x : Ctx) : Prop := Channel.Agrees x.poller x.conn.channel

/-- The context with the channel and its poller replaced. -/
def setChannel (x : Ctx) (p : EpollPoller) (c : Channel) : Ctx :=
  { x with poller := p, conn := { x.conn with channel := c } }

@[simp] theorem setChannel_channel (p : EpollPoller) (c : Channel) :
    (x.setChannel p c).conn.channel = c := rfl
@[simp] theorem setChannel_poller (p : EpollPoller) (c : Channel) :
    (x.setChannel p c).poller = p := rfl
@[simp] theorem setChannel_state (p : EpollPoller) (c : Channel) :
    (x.setChannel p c).conn.state = x.conn.state := rfl
@[simp] theorem setChannel_output (p : EpollPoller) (c : Channel) :
    (x.setChannel p c).conn.outputBuffer = x.conn.outputBuffer := rfl
@[simp] theorem setChannel_pending (p : EpollPoller) (c : Channel) :
    (x.setChannel p c).pending = x.pending := rfl
@[simp] theorem setChannel_log (p : EpollPoller) (c : Channel) :
    (x.setChannel p c).log = x.log := rfl

theorem updating_eq_ok {f : Channel → EpollPoller → Except Fault (EpollPoller × Channel)}
    (h : x.updating f = .ok x') :
    ∃ p c, f x.conn.channel x.poller = .ok (p, c) ∧ x' = x.setChannel p c := by
  obtain ⟨⟨p, c⟩, hf, hret⟩ := Except.bind_eq_ok.mp h
  rw [Except.pure_eq_ok] at hret
  exact ⟨p, c, hf, hret.symm⟩

/-- The poller is as it was, except at the connection's own descriptor. -/
def Elsewhere (x x' : Ctx) : Prop :=
  ∀ fd, fd ≠ x.conn.channel.fd → x'.poller.channels fd = x.poller.channels fd ∧
    x'.poller.interest fd = x.poller.interest fd

/-- An update of the interest, of a channel that agrees or not. -/
theorem updating_setEvents {g : Channel → Events}
    (h : x.updating (fun c => c.setEvents (g c)) = .ok x') :
    ∃ p, x' = x.setChannel p (x.conn.channel.withEvents (g x.conn.channel)) ∧
      Elsewhere x x' ∧ (x.Agrees → x'.Agrees) := by
  obtain ⟨p, c, hset, rfl⟩ := updating_eq_ok h
  obtain rfl := Channel.setEvents_eq_ok hset
  refine ⟨p, rfl, fun fd hfd => Channel.setEvents_frame hset hfd, fun hag => ?_⟩
  obtain ⟨p', hset', hag'⟩ := hag.setEvents (g x.conn.channel)
  rw [hset, Except.ok.injEq, Prod.mk.injEq] at hset'
  rw [← hset'.1] at hag'
  exact hag'

/-- A removal: afterwards the poller knows nothing of the channel. -/
theorem updating_remove (h : x.updating Channel.remove = .ok x') :
    ∃ p, x' = x.setChannel p { x.conn.channel with index := .kNew } ∧ Elsewhere x x' ∧
      (x.Agrees → p.channels x.conn.channel.fd = none ∧ p.interest x.conn.channel.fd = none) := by
  obtain ⟨p, c, hrem, rfl⟩ := updating_eq_ok h
  obtain rfl := Channel.remove_eq_ok hrem
  refine ⟨p, rfl, fun fd hfd => Channel.remove_frame hrem hfd, fun hag => ?_⟩
  obtain ⟨p', hrem', hgone⟩ := Channel.Agrees.remove hag
  rw [hrem, Except.ok.injEq, Prod.mk.injEq] at hrem'
  rw [hrem'.1]
  exact hgone

theorem invokeConnectionCallback_eq_ok (h : x.invokeConnectionCallback = .ok x') :
    x' = x.record (.connectionCallback x.connected) := by
  unfold invokeConnectionCallback at h
  split at h
  · simpa using h.symm
  · simp at h

theorem invokeMessageCallback_eq_ok (h : x.invokeMessageCallback = .ok x') :
    x' = x.record .messageCallback := by
  unfold invokeMessageCallback at h
  split at h
  · simpa using h.symm
  · simp at h

theorem invokeCloseCallback_eq_ok (h : x.invokeCloseCallback = .ok x') :
    x' = x.record .closeCallback := by
  unfold invokeCloseCallback at h
  split at h
  · simpa using h.symm
  · simp at h

@[simp] theorem queueWriteComplete_conn : x.queueWriteComplete.conn = x.conn := by
  unfold queueWriteComplete
  split <;> rfl

@[simp] theorem queueWriteComplete_log : x.queueWriteComplete.log = x.log := by
  unfold queueWriteComplete
  split <;> rfl

theorem queueWriteComplete_pending_congr {y : Ctx}
    (hcallback : y.conn.writeCompleteCallback = x.conn.writeCompleteCallback)
    (hid : y.conn.channel.id = x.conn.channel.id) (hpending : y.pending = x.pending) :
    y.queueWriteComplete.pending = x.queueWriteComplete.pending := by
  unfold queueWriteComplete
  rw [hcallback]
  split
  · rw [queueInLoop_pending, queueInLoop_pending, hid, hpending]
  · exact hpending

@[simp] theorem queueHighWaterMark_conn (n : Nat) :
    (x.queueHighWaterMark n).conn = x.conn := by
  simp only [queueHighWaterMark]
  split <;> rfl

@[simp] theorem queueHighWaterMark_log (n : Nat) :
    (x.queueHighWaterMark n).log = x.log := by
  simp only [queueHighWaterMark]
  split <;> rfl

/-! ### What the output functions leave alone -/

/-- A step that moves bytes out and touches nothing else of the connection. -/
structure OutputStep (x x' : Ctx) : Prop where
  state : x'.conn.state = x.conn.state
  id : x'.conn.channel.id = x.conn.channel.id
  fd : x'.conn.channel.fd = x.conn.channel.fd
  revents : x'.conn.channel.revents = x.conn.channel.revents
  reading : x'.conn.channel.isReading = x.conn.channel.isReading
  index : x.conn.channel.isReading = true → x.conn.channel.index = .kAdded →
    x'.conn.channel.index = .kAdded
  agrees : x.Agrees → x'.Agrees
  elsewhere : Elsewhere x x'
  pending : ∃ q, x'.pending = x.pending ++ q ∧ ∀ f ∈ q, f.isUserCallback = true
  log : ∃ es, x'.log = x.log ++ es ∧ ∀ e ∈ es, e.isOutput = true

namespace OutputStep

theorem refl (x : Ctx) : OutputStep x x where
  state := rfl
  id := rfl
  fd := rfl
  revents := rfl
  reading := rfl
  index _ h := h
  agrees h := h
  elsewhere _ _ := ⟨rfl, rfl⟩
  pending := ⟨[], by simp⟩
  log := ⟨[], by simp⟩

theorem trans {x y z : Ctx} (h₁ : OutputStep x y) (h₂ : OutputStep y z) : OutputStep x z where
  state := h₂.state.trans h₁.state
  id := h₂.id.trans h₁.id
  fd := h₂.fd.trans h₁.fd
  revents := h₂.revents.trans h₁.revents
  reading := h₂.reading.trans h₁.reading
  index hr hi := h₂.index (h₁.reading.trans hr) (h₁.index hr hi)
  agrees h := h₂.agrees (h₁.agrees h)
  elsewhere fd hfd := by
    obtain ⟨hc₁, hi₁⟩ := h₁.elsewhere fd hfd
    obtain ⟨hc₂, hi₂⟩ := h₂.elsewhere fd (by rw [h₁.fd]; exact hfd)
    exact ⟨hc₂.trans hc₁, hi₂.trans hi₁⟩
  pending := by
    obtain ⟨q₁, hq₁, hall₁⟩ := h₁.pending
    obtain ⟨q₂, hq₂, hall₂⟩ := h₂.pending
    refine ⟨q₁ ++ q₂, by rw [hq₂, hq₁, List.append_assoc], ?_⟩
    intro f hf
    rcases List.mem_append.mp hf with hf | hf
    · exact hall₁ f hf
    · exact hall₂ f hf
  log := by
    obtain ⟨l₁, hl₁, hall₁⟩ := h₁.log
    obtain ⟨l₂, hl₂, hall₂⟩ := h₂.log
    refine ⟨l₁ ++ l₂, by rw [hl₂, hl₁, List.append_assoc], ?_⟩
    intro e he
    rcases List.mem_append.mp he with he | he
    · exact hall₁ e he
    · exact hall₂ e he

theorem record {e : Entry} (he : e.isOutput = true) : OutputStep x (x.record e) :=
  { refl x with log := ⟨[e], by simp [he]⟩ }

theorem queueInLoop {f : Functor} (hf : f.isUserCallback = true) :
    OutputStep x (x.queueInLoop f) :=
  { refl x with pending := ⟨[f], by simp [hf]⟩ }

theorem setOutput (b : Buffer) : OutputStep x (x.setOutput b) :=
  { refl x with }

theorem queueWriteComplete : OutputStep x x.queueWriteComplete := by
  unfold Ctx.queueWriteComplete
  split
  · exact queueInLoop rfl
  · exact refl x

theorem queueHighWaterMark (n : Nat) : OutputStep x (x.queueHighWaterMark n) := by
  simp only [Ctx.queueHighWaterMark]
  split
  · exact queueInLoop rfl
  · exact refl x

/-- An update of the interest that does not touch the read interest. -/
theorem setEvents {g : Channel → Events}
    (hread : ∀ c : Channel, Events.has (g c) Channel.kReadEvent = c.isReading)
    (h : x.updating (fun c => c.setEvents (g c)) = .ok x') : OutputStep x x' := by
  obtain ⟨p, rfl, hother, hag⟩ := updating_setEvents h
  refine { refl x with
    reading := hread _, index := fun hr _ => ?_, agrees := hag, elsewhere := hother }
  have hhas : Events.has (g x.conn.channel) Channel.kReadEvent = true := by rw [hread, hr]
  exact Channel.withEvents_index_of_ne (Channel.ne_zero_of_has hhas)

theorem enableWriting (h : x.updating Channel.enableWriting = .ok x') : OutputStep x x' :=
  setEvents (g := fun c => c.events ||| Channel.kWriteEvent)
    (fun _ => Channel.isReading_or_write) h

theorem disableWriting (h : x.updating Channel.disableWriting = .ok x') : OutputStep x x' :=
  setEvents (g := fun c => c.events &&& ~~~Channel.kWriteEvent)
    (fun _ => Channel.isReading_andNot_write) h

end OutputStep

theorem directWrite_outputStep {mem : Mem} {call : SendCall} {w : WriteResult} {d : Direct}
    (h : x.directWrite mem call w = .ok (x', d)) : OutputStep x x' := by
  obtain ⟨acc, -, h⟩ := Except.bind_eq_ok.mp h
  simp only [Nat.zero_le, if_true] at h
  rw [Except.pure_eq_ok, Prod.mk.injEq] at h
  rw [← h.1]
  split
  · exact (OutputStep.record rfl).trans OutputStep.queueWriteComplete
  · exact OutputStep.record rfl

theorem bufferRemaining_outputStep {mem : Mem} {call : SendCall} {d : Direct}
    (h : x.bufferRemaining mem call d = .ok x') : OutputStep x x' := by
  unfold bufferRemaining at h
  split at h
  · obtain ⟨data, -, h⟩ := Except.bind_eq_ok.mp h
    obtain ⟨out, -, h⟩ := Except.bind_eq_ok.mp h
    refine (OutputStep.queueHighWaterMark d.remaining).trans ((OutputStep.setOutput out).trans
      ((OutputStep.record (e := .ran call (d.accepted ++ data)) rfl).trans ?_))
    dsimp only at h
    split at h
    · exact OutputStep.enableWriting h
    · rw [Except.pure_eq_ok] at h
      rw [← h]
      exact OutputStep.refl _
  · rw [Except.pure_eq_ok] at h
    rw [← h]
    exact OutputStep.record rfl

theorem sendInLoop_disconnected {mem : Mem} {call : SendCall} {w : WriteResult}
    (hs : x.conn.state = .kDisconnected) :
    x.sendInLoop mem call w = .ok (x.record (.gaveUp call)) := by
  unfold sendInLoop
  rw [if_pos hs]

theorem sendInLoop_outputStep {mem : Mem} {call : SendCall} {w : WriteResult}
    (h : x.sendInLoop mem call w = .ok x') : OutputStep x x' := by
  unfold sendInLoop at h
  split at h
  · rw [Except.ok.injEq] at h
    rw [← h]
    exact OutputStep.record rfl
  · split at h
    · obtain ⟨⟨y, d⟩, hd, h⟩ := Except.bind_eq_ok.mp h
      exact (directWrite_outputStep hd).trans (bufferRemaining_outputStep h)
    · exact bufferRemaining_outputStep h

/-! ### What they log -/

theorem directWrite_log {mem : Mem} {call : SendCall} {w : WriteResult} {d : Direct}
    (h : x.directWrite mem call w = .ok (x', d)) :
    ∃ accepted, x'.log = x.log ++ [.write call.len w.ret accepted] := by
  obtain ⟨accepted, -, h⟩ := Except.bind_eq_ok.mp h
  simp only [Nat.zero_le, if_true] at h
  rw [Except.pure_eq_ok, Prod.mk.injEq] at h
  refine ⟨accepted, ?_⟩
  rw [← h.1]
  split <;> simp

theorem bufferRemaining_log {mem : Mem} {call : SendCall} {d : Direct}
    (h : x.bufferRemaining mem call d = .ok x') :
    ∃ bytes, x'.log = x.log ++ [.ran call bytes] := by
  unfold bufferRemaining at h
  split at h
  · obtain ⟨data, -, h⟩ := Except.bind_eq_ok.mp h
    obtain ⟨out, -, h⟩ := Except.bind_eq_ok.mp h
    refine ⟨d.accepted ++ data, ?_⟩
    dsimp only at h
    split at h
    · obtain ⟨p, rfl, -⟩ := updating_setEvents
        (g := fun c => c.events ||| Channel.kWriteEvent) h
      simp [setOutput]
    · rw [Except.pure_eq_ok] at h
      rw [← h]
      simp [setOutput]
  · rw [Except.pure_eq_ok] at h
    exact ⟨d.accepted, by rw [← h, record_log]⟩

/-- Whatever the write results, `sendInLoop` writes at most, and then settles its call. -/
theorem sendInLoop_log {mem : Mem} {call : SendCall} {w : WriteResult}
    (h : x.sendInLoop mem call w = .ok x') :
    (x.conn.state = .kDisconnected ∧ x' = x.record (.gaveUp call)) ∨
      (x.conn.state ≠ .kDisconnected ∧ ∃ es bytes, x'.log = x.log ++ (es ++ [.ran call bytes]) ∧
        ∀ e ∈ es, e.isWrite = true) := by
  by_cases hs : x.conn.state = .kDisconnected
  · rw [sendInLoop_disconnected hs, Except.ok.injEq] at h
    exact Or.inl ⟨hs, h.symm⟩
  · refine Or.inr ⟨hs, ?_⟩
    unfold sendInLoop at h
    rw [if_neg hs] at h
    split at h
    · obtain ⟨⟨y, d⟩, hd, h⟩ := Except.bind_eq_ok.mp h
      obtain ⟨accepted, hlog⟩ := directWrite_log hd
      obtain ⟨bytes, hlog'⟩ := bufferRemaining_log h
      exact ⟨[.write call.len w.ret accepted], bytes, by simp [hlog', hlog],
        by simp [Entry.isWrite]⟩
    · obtain ⟨bytes, hlog⟩ := bufferRemaining_log h
      exact ⟨[], bytes, by simp [hlog], by simp⟩

theorem shutdownInLoop_outputStep : OutputStep x x.shutdownInLoop := by
  unfold shutdownInLoop
  split
  · exact OutputStep.record rfl
  · exact OutputStep.refl x

theorem writeFinished_outputStep (h : x.writeFinished = .ok x') : OutputStep x x' := by
  obtain ⟨y, hy, h⟩ := Except.bind_eq_ok.mp h
  rw [Except.pure_eq_ok] at h
  refine (OutputStep.disableWriting hy).trans (OutputStep.queueWriteComplete.trans ?_)
  rw [← h]
  split
  · exact shutdownInLoop_outputStep
  · exact OutputStep.refl _

theorem handleWrite_outputStep {w : WriteResult} (h : x.handleWrite w = .ok x') :
    OutputStep x x' := by
  unfold handleWrite at h
  split at h
  · refine (OutputStep.record (e := .write x.conn.outputBuffer.readableBytes w.ret
      (x.conn.outputBuffer.content.take w.ret.toNat)) rfl).trans ?_
    dsimp only at h
    split at h
    · refine (OutputStep.setOutput (x.conn.outputBuffer.retrieve
        (x.conn.outputBuffer.writeFd w).1)).trans ?_
      split at h
      · exact writeFinished_outputStep h
      · rw [Except.ok.injEq] at h
        rw [← h]
        exact OutputStep.refl _
    · rw [Except.ok.injEq] at h
      rw [← h]
      exact OutputStep.refl _
  · rw [Except.ok.injEq] at h
    rw [← h]
    exact OutputStep.refl _

@[simp] theorem shutdownInLoop_conn : x.shutdownInLoop.conn = x.conn := by
  unfold shutdownInLoop
  split <;> rfl

@[simp] theorem shutdownInLoop_pending : x.shutdownInLoop.pending = x.pending := by
  unfold shutdownInLoop
  split <;> rfl

theorem writeFinished_pending (h : x.writeFinished = .ok x') :
    x'.pending = x.queueWriteComplete.pending := by
  obtain ⟨y, hy, h⟩ := Except.bind_eq_ok.mp h
  obtain ⟨p, rfl, -⟩ := updating_setEvents
    (g := fun c => c.events &&& ~~~Channel.kWriteEvent) hy
  have hqueued : (x.setChannel p (x.conn.channel.withEvents
      (x.conn.channel.events &&& ~~~Channel.kWriteEvent))).queueWriteComplete.pending =
        x.queueWriteComplete.pending := queueWriteComplete_pending_congr rfl rfl rfl
  rw [Except.pure_eq_ok] at h
  rw [← hqueued, ← h]
  split
  · exact shutdownInLoop_pending
  · rfl

theorem shutdownInLoop_log :
    ∃ es, x.shutdownInLoop.log = x.log ++ es ∧ ∀ e ∈ es, e.isCall = false := by
  unfold shutdownInLoop
  split
  · exact ⟨_, rfl, by simp [Entry.isCall]⟩
  · exact ⟨[], by simp, by simp⟩

theorem writeFinished_log (h : x.writeFinished = .ok x') :
    ∃ es, x'.log = x.log ++ es ∧ ∀ e ∈ es, e.isCall = false := by
  obtain ⟨y, hy, h⟩ := Except.bind_eq_ok.mp h
  obtain ⟨p, rfl, -⟩ := updating_setEvents
    (g := fun c => c.events &&& ~~~Channel.kWriteEvent) hy
  rw [Except.pure_eq_ok] at h
  rw [← h]
  split
  · obtain ⟨es, hes, hall⟩ := shutdownInLoop_log
      (x := (x.setChannel p _).queueWriteComplete)
    exact ⟨es, by rw [hes, queueWriteComplete_log]; rfl, hall⟩
  · exact ⟨[], by rw [queueWriteComplete_log]; simp, by simp⟩

theorem handleWrite_noCall {w : WriteResult} (h : x.handleWrite w = .ok x') :
    ∃ es, x'.log = x.log ++ es ∧ ∀ e ∈ es, e.isCall = false := by
  unfold handleWrite at h
  split at h
  · dsimp only at h
    split at h
    · split at h
      · obtain ⟨es, hes, hall⟩ := writeFinished_log h
        refine ⟨_ :: es, by rw [hes]; simp [setOutput]; rfl, ?_⟩
        intro e he
        rcases List.mem_cons.mp he with rfl | he
        · rfl
        · exact hall e he
      · rw [Except.ok.injEq] at h
        exact ⟨[_], by rw [← h]; rfl, by simp [Entry.isCall]⟩
    · rw [Except.ok.injEq] at h
      exact ⟨[_], by rw [← h]; rfl, by simp [Entry.isCall]⟩
  · rw [Except.ok.injEq] at h
    exact ⟨[], by rw [← h]; simp, by simp⟩

/-! ### Moving bytes

With sane write results `sendInLoop` offers its message to the pipe and `handleWrite`
drains it.  The write interest follows what the pipe holds.
-/

/-- The bytes that went out, and the unsent ones behind them. -/
def pipe (x : Ctx) : Pipe Byte := ⟨written x.log, x.conn.outputBuffer.content⟩

/-- `sendInLoop` took `bytes` from the message: `k` of them went out at once. -/
structure SendStep (x x' : Ctx) (call : SendCall) (bytes : List Byte) (k : Nat) : Prop where
  wf : x'.conn.outputBuffer.WF
  pipe : x'.pipe = x.pipe.offer bytes k
  log : (x'.log = x.log ++ [.write call.len k (bytes.take k), .ran call bytes] ∧
      x.pipe.held = [] ∧ x.conn.channel.isWriting = false) ∨
    (x'.log = x.log ++ [.ran call bytes] ∧ k = 0)
  done : bytes.drop k = [] → x'.conn.channel = x.conn.channel
  rest : bytes.drop k ≠ [] → x'.conn.channel.isWriting = true

section Send

variable {mem : Mem} {call : SendCall} {w : WriteResult} {d : Direct}

/-- `sendInLoop` will try a direct write. -/
def WritesDirectly (x : Ctx) : Prop :=
  x.conn.state ≠ .kDisconnected ∧ x.conn.channel.isWriting = false ∧
    x.conn.outputBuffer.readableBytes = 0

/-- A count of at most the length of the message takes the front of it. -/
theorem directWrite_front (hlen : call.len < 2 ^ 64) (hret : 0 ≤ w.ret ∧ w.ret ≤ call.len)
    (h : x.directWrite mem call w = .ok (x', d)) :
    ∃ front, front.length ≤ call.len ∧ mem.read call.message front.length = .ok front ∧
      x'.conn = x.conn ∧ x'.log = x.log ++ [.write call.len front.length front] ∧
      d = ⟨front.length, call.len - front.length, false, front⟩ := by
  obtain ⟨front, hfront, h⟩ := Except.bind_eq_ok.mp h
  simp only [Nat.zero_le, if_true] at h
  rw [Except.pure_eq_ok, Prod.mk.injEq] at h
  obtain ⟨hx, hd⟩ := h
  have hconn : x'.conn = x.conn := by
    rw [← hx]
    split <;> simp
  have hlog : x'.log = x.log ++ [.write call.len w.ret front] := by
    rw [← hx]
    split <;> simp
  have hk : w.ret.toNat ≤ call.len := by omega
  have hcast : ((w.ret.toNat : Nat) : Int) = w.ret := Int.toNat_of_nonneg hret.1
  have hfl : front.length = w.ret.toNat := Mem.read_length hfront
  refine ⟨front, by omega, by rw [hfl]; exact hfront, hconn, by rw [hlog, hfl, hcast], ?_⟩
  rw [← hd, toSize_eq hret.1 hret.2 hlen, sizeSub_eq hk hlen, hfl]

/-- Buffering what a direct write left, or the whole message. -/
theorem bufferRemaining_rest {front : List Byte}
    (hfront : mem.read call.message front.length = .ok front)
    (hk : front.length ≤ call.len)
    (h : x.bufferRemaining mem call ⟨front.length, call.len - front.length, false, front⟩
      = .ok x') :
    ∃ rest, mem.read call.message call.len = .ok (front ++ rest) ∧
      x'.log = x.log ++ [.ran call (front ++ rest)] ∧
      (rest = [] → x'.conn = x.conn) ∧
      (rest ≠ [] → x'.conn.channel.isWriting = true ∧
        x.conn.outputBuffer.append rest rest.length = .ok x'.conn.outputBuffer) := by
  unfold bufferRemaining at h
  split at h
  · rename_i hpos
    have hpos : 0 < call.len - front.length := hpos.2
    obtain ⟨rest, hrest, h⟩ := Except.bind_eq_ok.mp h
    obtain ⟨out, hout, h⟩ := Except.bind_eq_ok.mp h
    dsimp only at hrest hout h
    rw [sizeAdd, Mem.read_mod] at hrest
    have hlen : rest.length = call.len - front.length := Mem.read_length hrest
    have hread : mem.read call.message call.len = .ok (front ++ rest) := by
      have hall := Mem.read_append hfront hrest
      rwa [show front.length + (call.len - front.length) = call.len by omega] at hall
    have hne : rest ≠ [] := by
      rintro rfl
      simp at hlen
      omega
    rw [queueHighWaterMark_conn, ← hlen] at hout
    split at h
    · obtain ⟨p, rfl, -⟩ := updating_setEvents
        (g := fun c => c.events ||| Channel.kWriteEvent) h
      refine ⟨rest, hread, by simp [setOutput], fun hnil => absurd hnil hne, fun _ => ?_⟩
      exact ⟨by simp [Channel.isWriting], hout⟩
    · rename_i hwriting
      rw [Except.pure_eq_ok] at h
      subst h
      refine ⟨rest, hread, by simp [setOutput], fun hnil => absurd hnil hne, fun _ => ?_⟩
      exact ⟨by simpa [setOutput] using hwriting, hout⟩
  · rename_i hzero
    have hzero : call.len - front.length = 0 := by
      simp only [Bool.not_false, true_and] at hzero
      omega
    rw [show front.length = call.len by omega] at hfront
    rw [Except.pure_eq_ok] at h
    subst h
    exact ⟨[], by simpa using hfront, by simp, fun _ => rfl, fun hne => absurd rfl hne⟩

/-- What `sendInLoop` takes from memory, when no direct write fails. -/
theorem sendInLoop_took (hlen : call.len < 2 ^ 64) (hs : x.conn.state ≠ .kDisconnected)
    (hret : x.WritesDirectly → 0 ≤ w.ret ∧ w.ret ≤ call.len)
    (h : x.sendInLoop mem call w = .ok x') :
    ∃ front rest, mem.read call.message call.len = .ok (front ++ rest) ∧
      ((x'.log = x.log ++ [.write call.len front.length front, .ran call (front ++ rest)] ∧
          x.WritesDirectly) ∨
        (x'.log = x.log ++ [.ran call (front ++ rest)] ∧ front = [])) ∧
      (rest = [] → x'.conn = x.conn) ∧
      (rest ≠ [] → x'.conn.channel.isWriting = true ∧
        x.conn.outputBuffer.append rest rest.length = .ok x'.conn.outputBuffer) := by
  unfold sendInLoop at h
  rw [if_neg hs] at h
  split at h
  · rename_i hfree
    have hdirect : x.WritesDirectly := ⟨hs, by simpa using hfree.1, hfree.2⟩
    obtain ⟨⟨y, d⟩, hd, h⟩ := Except.bind_eq_ok.mp h
    obtain ⟨front, hk, hfront, hconn, hlog, rfl⟩ := directWrite_front hlen (hret hdirect) hd
    obtain ⟨rest, hread, hlog', hdone, hrest⟩ := bufferRemaining_rest hfront hk h
    rw [hconn] at hdone hrest
    refine ⟨front, rest, hread, Or.inl ⟨?_, hdirect⟩, hdone, hrest⟩
    simp [hlog', hlog]
  · obtain ⟨rest, hread, hlog', hdone, hrest⟩ :=
      bufferRemaining_rest (show mem.read _ (List.length []) = .ok [] from rfl)
        (Nat.zero_le _) (by simpa using h)
    exact ⟨[], rest, hread, Or.inr ⟨hlog', rfl⟩, hdone, hrest⟩

/-- A direct write is logged. -/
theorem sendInLoop_write_mem (hdirect : x.WritesDirectly)
    (h : x.sendInLoop mem call w = .ok x') :
    ∃ accepted, Entry.write call.len w.ret accepted ∈ x'.log := by
  obtain ⟨hs, hw, hempty⟩ := hdirect
  unfold sendInLoop at h
  rw [if_neg hs, if_pos ⟨by simp [hw], hempty⟩] at h
  obtain ⟨⟨y, d⟩, hd, h⟩ := Except.bind_eq_ok.mp h
  obtain ⟨es, hes, -⟩ := (bufferRemaining_outputStep h).log
  obtain ⟨front, -, hd⟩ := Except.bind_eq_ok.mp hd
  simp only [Nat.zero_le, if_true] at hd
  rw [Except.pure_eq_ok, Prod.mk.injEq] at hd
  refine ⟨front, ?_⟩
  rw [hes, ← hd.1]
  refine List.mem_append_left es ?_
  split <;> simp

/-- Sanity of the log is sanity of the direct write. -/
theorem sendInLoop_ret (h : x.sendInLoop mem call w = .ok x') (hsane : SaneWrites x'.log)
    (hdirect : x.WritesDirectly) : 0 ≤ w.ret ∧ w.ret ≤ call.len := by
  obtain ⟨accepted, hmem⟩ := sendInLoop_write_mem hdirect h
  exact hsane _ hmem

theorem sendInLoop_sane (hwf : x.conn.outputBuffer.WF) (hlen : call.len < 2 ^ 64)
    (hs : x.conn.state ≠ .kDisconnected) (h : x.sendInLoop mem call w = .ok x')
    (hsane : SaneWrites x'.log) :
    ∃ bytes k, mem.read call.message call.len = .ok bytes ∧ SendStep x x' call bytes k := by
  obtain ⟨front, rest, hread, hlog, hdone, hrest⟩ :=
    sendInLoop_took hlen hs (sendInLoop_ret h hsane) h
  have hout : x'.conn.outputBuffer.WF ∧
      x'.conn.outputBuffer.content = x.conn.outputBuffer.content ++ rest := by
    by_cases hnil : rest = []
    · rw [hdone hnil]
      exact ⟨hwf, by simp [hnil]⟩
    · exact Buffer.append_spec hwf (hrest hnil).2
  refine ⟨front ++ rest, front.length, hread, hout.1, ?_, ?_, ?_, ?_⟩
  · rcases hlog with ⟨hlog, -⟩ | ⟨hlog, rfl⟩ <;>
      simp [pipe, Pipe.offer, hlog, hout.2, Entry.accepted]
  · rcases hlog with ⟨hlog, hdirect⟩ | ⟨hlog, rfl⟩
    · refine Or.inl ⟨by simpa using hlog, ?_, hdirect.2.1⟩
      exact (Buffer.content_eq_nil_iff hwf).mpr hdirect.2.2
    · exact Or.inr ⟨hlog, rfl⟩
  · intro hnil
    rw [hdone (by simpa using hnil)]
  · intro hne
    exact (hrest (by simpa using hne)).1

end Send

theorem shutdownInLoop_of_writing (h : x.conn.channel.isWriting = true) :
    x.shutdownInLoop = x := by
  simp [shutdownInLoop, h]

theorem shutdownInLoop_of_not_writing (h : x.conn.channel.isWriting = false) :
    x.shutdownInLoop = x.record (.shutdownWrite x.conn.state x.conn.outputBuffer.content) := by
  simp [shutdownInLoop, h]

/-- `handleWrite` had output pending and sent `k` bytes of it.  `ending` is empty, or the
half-close that was waiting for the last byte. -/
structure DrainStep (x x' : Ctx) (k : Nat) (ending : List Entry) : Prop where
  wf : x'.conn.outputBuffer.WF
  pipe : x'.pipe = x.pipe.drain k
  log : x'.log = x.log ++ .write x.conn.outputBuffer.readableBytes k
    (x.conn.outputBuffer.content.take k) :: ending
  ending : ending = [] ∨ (ending = [.shutdownWrite .kDisconnecting []] ∧
    x.conn.state = .kDisconnecting ∧ x'.pipe.held = [] ∧ x'.conn.channel.isWriting = false)
  done : 0 < k → x'.pipe.held = [] → x'.conn.channel.isWriting = false
  rest : k = 0 ∨ x'.pipe.held ≠ [] → x'.conn.channel = x.conn.channel

theorem writeFinished_spec (h : x.writeFinished = .ok x') :
    x'.conn.channel.isWriting = false ∧
      x'.conn.outputBuffer = x.conn.outputBuffer ∧
      x'.log = x.log ++ (if x.conn.state = .kDisconnecting then
        [.shutdownWrite .kDisconnecting x.conn.outputBuffer.content] else []) := by
  obtain ⟨y, hy, h⟩ := Except.bind_eq_ok.mp h
  obtain ⟨p, rfl, -⟩ := updating_setEvents
    (g := fun c => c.events &&& ~~~Channel.kWriteEvent) hy
  rw [Except.pure_eq_ok] at h
  simp only [queueWriteComplete_conn, setChannel_state] at h
  split at h
  · rename_i hstate
    rw [shutdownInLoop_of_not_writing (by simp [Channel.isWriting])] at h
    subst h
    simp [hstate, Channel.isWriting]
  · rename_i hstate
    subst h
    simp [hstate, Channel.isWriting]

theorem handleWrite_not_writing {w : WriteResult} (h : x.conn.channel.isWriting = false) :
    x.handleWrite w = .ok x := by
  simp [handleWrite, h]

/-- The entry of the write that `handleWrite` makes. -/
def writeEntry (x : Ctx) (w : WriteResult) : Entry :=
  .write x.conn.outputBuffer.readableBytes w.ret (x.conn.outputBuffer.content.take w.ret.toNat)

/-- `handleWrite` takes the last byte to have gone, and closes the output. -/
structure LastWrite (x x' : Ctx) (w : WriteResult) : Prop where
  state : x.conn.state = .kDisconnecting
  sent : 0 < toSize w.ret
  empty : (x.conn.outputBuffer.retrieve (toSize w.ret)).readableBytes = 0
  output : x'.conn.outputBuffer = x.conn.outputBuffer.retrieve (toSize w.ret)
  writing : x'.conn.channel.isWriting = false
  log : x'.log = x.log ++ [x.writeEntry w] ++
    [.shutdownWrite .kDisconnecting x'.conn.outputBuffer.content]

/-- Whatever the write result, `handleWrite` writes, and at most closes the output then. -/
theorem handleWrite_cases {w : WriteResult} (hwriting : x.conn.channel.isWriting = true)
    (h : x.handleWrite w = .ok x') :
    x'.log = x.log ++ [x.writeEntry w] ∨ LastWrite x x' w := by
  have hn : (x.conn.outputBuffer.writeFd w).1 = toSize w.ret := by simp [Buffer.writeFd]
  simp only [handleWrite, hwriting, if_true, hn, record_conn, setOutput_output] at h
  by_cases hpos : 0 < toSize w.ret
  · rw [if_pos hpos] at h
    by_cases hempty : (x.conn.outputBuffer.retrieve (toSize w.ret)).readableBytes = 0
    · rw [if_pos hempty] at h
      obtain ⟨hnot, hbuf, hlog⟩ := writeFinished_spec h
      have hbuf : x'.conn.outputBuffer = x.conn.outputBuffer.retrieve (toSize w.ret) := hbuf
      by_cases hstate : x.conn.state = .kDisconnecting
      · refine Or.inr ⟨hstate, hpos, hempty, hbuf, hnot, ?_⟩
        rw [hlog, hbuf]
        simp [setOutput, hstate, writeEntry]
      · refine Or.inl ?_
        rw [hlog]
        simp [setOutput, hstate, writeEntry]
    · rw [if_neg hempty, Except.ok.injEq] at h
      exact Or.inl (by rw [← h]; rfl)
  · rw [if_neg hpos, Except.ok.injEq] at h
    exact Or.inl (by rw [← h]; rfl)

/-- What `handleWrite` logs first. -/
theorem handleWrite_log {w : WriteResult} (hwriting : x.conn.channel.isWriting = true)
    (h : x.handleWrite w = .ok x') :
    Entry.write x.conn.outputBuffer.readableBytes w.ret
      (x.conn.outputBuffer.content.take w.ret.toNat) ∈ x'.log := by
  simp only [handleWrite, hwriting, if_true] at h
  split at h
  · split at h
    · obtain ⟨-, -, hlog⟩ := writeFinished_spec h
      rw [hlog]
      simp [setOutput]
    · rw [Except.ok.injEq] at h
      rw [← h]
      simp [setOutput]
  · rw [Except.ok.injEq] at h
    rw [← h]
    simp

/-- The last byte went out. -/
theorem drainStep_finished {k : Nat} (hwf : (x.conn.outputBuffer.retrieve k).WF)
    (hdrop : x.conn.outputBuffer.content.drop k = [])
    (hcontent : (x.conn.outputBuffer.retrieve k).content = [])
    (h : ((x.record (.write x.conn.outputBuffer.readableBytes k
      (x.conn.outputBuffer.content.take k))).setOutput
        (x.conn.outputBuffer.retrieve k)).writeFinished = .ok x') (hpos : 0 < k) :
    DrainStep x x' k (if x.conn.state = .kDisconnecting then
      [.shutdownWrite .kDisconnecting []] else []) := by
  obtain ⟨hnot, hbuf, hlog⟩ := writeFinished_spec h
  have hbuf : x'.conn.outputBuffer = x.conn.outputBuffer.retrieve k := hbuf
  have hnil : x'.pipe.held = [] := by
    rw [pipe, hbuf, hcontent]
  have hlog : x'.log = x.log ++ .write x.conn.outputBuffer.readableBytes k
      (x.conn.outputBuffer.content.take k) :: (if x.conn.state = .kDisconnecting then
        [.shutdownWrite .kDisconnecting []] else []) := by
    rw [hlog]
    simp [setOutput, hcontent]
  refine ⟨by rw [hbuf]; exact hwf, ?_, hlog, ?_, fun _ _ => hnot, ?_⟩
  · by_cases hstate : x.conn.state = .kDisconnecting <;>
      simp [pipe, Pipe.drain, hbuf, hlog, hcontent, hdrop, hstate, Entry.accepted]
  · by_cases hstate : x.conn.state = .kDisconnecting
    · exact Or.inr ⟨if_pos hstate, hstate, hnil, hnot⟩
    · exact Or.inl (if_neg hstate)
  · rintro (rfl | hne)
    · omega
    · exact absurd hnil hne

theorem handleWrite_sane {w : WriteResult} (hwf : x.conn.outputBuffer.WF)
    (hwriting : x.conn.channel.isWriting = true) (h : x.handleWrite w = .ok x')
    (hsane : SaneWrites x'.log) : ∃ ending, DrainStep x x' w.ret.toNat ending := by
  have hret : 0 ≤ w.ret ∧ w.ret ≤ x.conn.outputBuffer.readableBytes :=
    hsane _ (handleWrite_log hwriting h)
  have hcast : ((w.ret.toNat : Nat) : Int) = w.ret := Int.toNat_of_nonneg hret.1
  have hn : (x.conn.outputBuffer.writeFd w).1 = w.ret.toNat := by
    have hlt := Buffer.readableBytes_lt hwf
    simp [Buffer.writeFd, toSize_eq hret.1 hret.2 (by omega)]
  have hwf' := hwf.retrieve w.ret.toNat
  have hcontent := Buffer.content_retrieve hwf w.ret.toNat
  simp only [handleWrite, hwriting, if_true, hn, record_conn] at h
  rw [← hcast] at h
  generalize w.ret.toNat = k at h hwf' hcontent
  rw [Int.toNat_natCast] at h
  split at h
  · split at h
    · -- the last byte went out
      rename_i hpos hempty
      have hnil : (x.conn.outputBuffer.retrieve k).content = [] :=
        (Buffer.content_eq_nil_iff hwf').mpr hempty
      exact ⟨_, drainStep_finished hwf' (by rw [← hcontent, hnil]) hnil h hpos⟩
    · -- some bytes are left
      rename_i hmore
      rw [Except.ok.injEq] at h
      subst h
      have hne : (x.conn.outputBuffer.retrieve k).content ≠ [] := fun hnil =>
        hmore ((Buffer.content_eq_nil_iff hwf').mp hnil)
      refine ⟨[], hwf', ?_, by simp [setOutput], Or.inl rfl,
        fun _ hnil => absurd hnil hne, fun _ => rfl⟩
      simp [pipe, Pipe.drain, setOutput, hcontent, Entry.accepted]
  · -- nothing was written
    rename_i hzero
    obtain rfl : k = 0 := by omega
    rw [Except.ok.injEq] at h
    subst h
    exact ⟨[], hwf, by simp [pipe, Pipe.drain, Entry.accepted], by simp, Or.inl rfl,
      fun hpos => absurd hpos (by omega), fun _ => rfl⟩

end Ctx

end Muduo
