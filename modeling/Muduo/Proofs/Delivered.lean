/-
The echo server gives back everything.

What a program has sent and the socket has not taken is in the output buffer, and the socket is
watched for writing; this is kept by everything the program does in its callback.  The write
events then take it all out, in whatever pieces.
-/
import Muduo.Proofs.Drain
import Muduo.Proofs.Programs

namespace Muduo

namespace Channel

/-- A channel that is put into the poller for the first time agrees with it. -/
theorem setEvents_new {c c' : Channel} {events : Events} {p p' : EpollPoller}
    (hi : c.index = .kNew) (h : c.setEvents events p = .ok (p', c')) : Agrees p' c' := by
  simp only [setEvents, EpollPoller.updateChannel, hi, EpollPoller.update] at h
  split at h
  · simp [bind, Except.bind] at h
  · obtain ⟨q, hq, h⟩ := Except.bind_eq_ok.mp h
    rw [Except.ok.injEq] at hq
    rw [Except.pure_eq_ok, Prod.mk.injEq] at h
    rw [← h.1, ← h.2, ← hq]
    simp [Agrees]

end Channel

namespace Ctx

variable {x y : Ctx}

/-- The poller has the interest of the channel, and until the connection is down that is an
interest in writing exactly while there is unsent output. -/
structure Tracked (x : Ctx) : Prop where
  agrees : x.Agrees
  wf : x.conn.outputBuffer.WF
  writing : x.conn.state ≠ .kDisconnected → x.WritingIffUnsent

/-- A step that does not touch the output. -/
theorem Tracked.same (h : x.Tracked) (hchannel : y.conn.channel = x.conn.channel)
    (hpoller : y.poller = x.poller) (houtput : y.conn.outputBuffer = x.conn.outputBuffer)
    (hstate : x.conn.state = .kDisconnected → y.conn.state = .kDisconnected) : y.Tracked := by
  refine ⟨?_, ?_, ?_⟩
  · unfold Agrees
    rw [hchannel, hpoller]
    exact h.agrees
  · rw [houtput]
    exact h.wf
  · intro hopen
    unfold WritingIffUnsent
    rw [hchannel, houtput]
    exact h.writing fun hs => hopen (hstate hs)

/-- The end of the connection. -/
theorem Tracked.close (h : x.Tracked) (hclose : CloseStep x y) : y.Tracked := by
  refine ⟨hclose.agrees h.agrees, ?_, fun hopen => absurd hclose.state hopen⟩
  rw [hclose.output]
  exact h.wf

theorem Tracked.sendInLoop (h : x.Tracked) {mem : Mem} {call : SendCall} {w : WriteResult}
    (hlen : call.len < 2 ^ 64) (hopen : x.conn.state ≠ .kDisconnected)
    (hy : x.sendInLoop mem call w = .ok y) (hsane : SaneWrites y.log) : y.Tracked := by
  obtain ⟨bytes, k, -, hsend⟩ := sendInLoop_sane h.wf hlen hopen hy hsane
  exact ⟨(sendInLoop_outputStep hy).agrees h.agrees, hsend.wf,
    fun _ => hsend.writingIffUnsent (h.writing hopen)⟩

theorem Tracked.handleWrite (h : x.Tracked) {w : WriteResult}
    (hwriting : x.conn.channel.isWriting = true) (hy : x.handleWrite w = .ok y)
    (hsane : SaneWrites y.log) : y.Tracked := by
  obtain ⟨ending, hdrain⟩ := handleWrite_sane h.wf hwriting hy hsane
  have hstep := handleWrite_outputStep hy
  refine ⟨hstep.agrees h.agrees, hdrain.wf, ?_⟩
  intro hopen
  rw [hstep.state] at hopen
  exact hdrain.writingIffUnsent hwriting (h.writing hopen)

end Ctx

namespace Op

variable {t : Tid} {x y : Ctx} {w : WriteResult} {op : Op} {ops : List Op}
  {answers : Nat → WriteResult}

/-- A call that the callback makes. -/
theorem run_tracked (h : x.Tracked) (hy : op.run t x w = .ok y) (hsane : SaneWrites y.log) :
    y.Tracked := by
  cases op with
  | retrieve len =>
      simp only [run, Except.ok.injEq] at hy
      rw [← hy]
      exact h.same rfl rfl rfl id
  | send message =>
      have hlen := run_size hy
      rw [run_send hlen] at hy
      cases hconn : x.connected with
      | false =>
          simp only [hconn, Bool.false_eq_true, if_false, Except.ok.injEq] at hy
          rw [← hy]
          exact h
      | true =>
          simp only [hconn, if_true] at hy
          obtain ⟨z, hz, hy⟩ := Except.bind_eq_ok.mp hy
          rw [Except.pure_eq_ok] at hy
          rw [← hy] at hsane ⊢
          have hopen : x.conn.state ≠ .kDisconnected := by
            intro hs
            simp [Ctx.connected, hs] at hconn
          have hlt : (callOf t message).len < 2 ^ 64 := by
            show message.length < 2 ^ 64
            unfold maxSize at hlen
            omega
          have hz : (x.record (.called (callOf t message))).sendInLoop (Mem.ofString message)
              (callOf t message) w = .ok z := hz
          have hcalled : (x.record (.called (callOf t message))).Tracked := h.same rfl rfl rfl id
          rw [Ctx.record_log, saneWrites_append] at hsane
          exact (hcalled.sendInLoop hlt hopen hz hsane.1).same rfl rfl rfl id

/-- What the callback does. -/
theorem runAll_tracked (h : x.Tracked) (hy : runAll t x answers ops = .ok y)
    (hsane : SaneWrites y.log) : y.Tracked := by
  induction ops generalizing x answers with
  | nil =>
      simp only [runAll, Except.ok.injEq] at hy
      rw [← hy]
      exact h
  | cons op ops ih =>
      obtain ⟨z, hz, hy⟩ := Except.bind_eq_ok.mp hy
      obtain ⟨es, hes⟩ := runAll_log hy
      have hsane' : SaneWrites z.log := by
        rw [hes, saneWrites_append] at hsane
        exact hsane.1
      exact ih (run_tracked h hz hsane') hy

end Op

namespace Session

variable {σ : Type} {A : App σ} {init : σ} {s s' : Session σ} {a : Action}

theorem closed_tracked {x : Ctx} (h : x.Tracked) (hs : s.closed x = .ok s') : s'.x.Tracked := by
  obtain ⟨y, hy, hs⟩ := Except.bind_eq_ok.mp hs
  rw [Except.pure_eq_ok] at hs
  obtain rfl := Ctx.invokeCloseCallback_eq_ok hy
  rw [← hs]
  exact h.same rfl rfl rfl id

theorem tracked_of_init (h : s.Init init) : s.x.Tracked := by
  obtain ⟨x, ⟨id, fd, wc, hconn⟩, hlog, hest⟩ := h.up
  have hstep := Ctx.connectEstablished_establishStep hest
  have houtput : s.x.conn.outputBuffer = Buffer.new Buffer.kInitialSize := by
    rw [hstep.output, hconn]
    rfl
  refine ⟨?_, ?_, ?_⟩
  · obtain ⟨y, hy, hcall⟩ := Except.bind_eq_ok.mp hest
    obtain ⟨p, c, hset, rfl⟩ := Ctx.updating_eq_ok hy
    rw [Ctx.invokeConnectionCallback_eq_ok hcall]
    refine Channel.setEvents_new ?_ hset
    show x.conn.channel.index = .kNew
    rw [hconn]
    rfl
  · rw [houtput]
    exact Buffer.WF.new _
  · intro _
    have hwriting : s.x.conn.channel.isWriting = false := by
      rw [hstep.channel, hconn]
      simp [Channel.isWriting, TcpConnection.new, Channel.new]
      decide
    unfold Ctx.WritingIffUnsent
    rw [houtput, Buffer.content_new, hwriting]
    simp

theorem tracked_step (h : s.x.Tracked) (hstep : (lts A init).step s a s')
    (hsane : SaneWrites s'.x.log) : s'.x.Tracked := by
  obtain ⟨hen, hs⟩ := hstep
  cases a with
  | readable r answers =>
      obtain ⟨⟨x, fs⟩, hx, hs⟩ := Except.bind_eq_ok.mp hs
      obtain ⟨y, hread, hend⟩ := Ctx.handleRead_cases hx
      have hy : y.Tracked := h.same hread.channel hread.poller hread.output
        (fun hs => hread.state.trans hs)
      rcases hend with ⟨rfl, rfl⟩ | ⟨hclose, rfl⟩
      · obtain ⟨z, hz, hs⟩ := Except.bind_eq_ok.mp hs
        rw [Except.pure_eq_ok] at hs
        rw [← hs] at hsane ⊢
        have hrun : (y.record .messageCallback).Tracked := hy.same rfl rfl rfl id
        exact Op.runAll_tracked hrun hz hsane
      · exact closed_tracked (hy.close hclose) hs
  | writable w =>
      obtain ⟨x, hx, hs⟩ := Except.bind_eq_ok.mp hs
      rw [Except.pure_eq_ok] at hs
      rw [← hs] at hsane ⊢
      exact h.handleWrite hen hx hsane
  | hangup =>
      obtain ⟨⟨x, fs⟩, hx, hs⟩ := Except.bind_eq_ok.mp hs
      exact closed_tracked (h.close (Ctx.handleClose_closeStep hx).1) hs
  | shutdown =>
      rcases shutdown_cases hs with rfl | ⟨hup, rfl⟩
      · exact h.same rfl rfl rfl id
      · have hstore : (s.x.record (.shutdownCalled s.loopTid)).shutdownStore.Tracked :=
          ⟨h.agrees, h.wf, fun _ => h.writing (by simp [hup])⟩
        show ((s.x.record _).shutdownStore.shutdownInLoop).Tracked
        unfold Ctx.shutdownInLoop
        split
        · exact hstore.same rfl rfl rfl id
        · exact hstore
  | others poller =>
      have hs : s' = { s with x := { s.x with poller := poller } } := (Except.ok.inj hs).symm
      rw [hs]
      exact ⟨h.agrees.congr hen.1 hen.2, h.wf, h.writing⟩

theorem tracked_of_reachable (h : (lts A init).Reachable s) (hsane : SaneWrites s.x.log) :
    s.x.Tracked := by
  refine h.induct (P := fun s => SaneWrites s.x.log → s.x.Tracked)
    (fun s₀ h0 _ => tracked_of_init h0) ?_ hsane
  intro m a m' _ hm hstep hsane'
  obtain ⟨es, hes⟩ := step_grows hstep
  refine tracked_step (hm ?_) hstep hsane'
  rw [hes, saneWrites_append] at hsane'
  exact hsane'.1

/-- Write events are steps of the session, as long as the kernel has any. -/
theorem handleWrites_reachable {y : Ctx} {rooms : List Nat} (h : (lts A init).Reachable s)
    (hy : s.x.handleWrites rooms = .ok y) : (lts A init).Reachable { s with x := y } := by
  induction rooms generalizing s with
  | nil =>
      rw [← Except.ok.inj hy]
      exact h
  | cons room rooms ih =>
      obtain ⟨x, hx, hy⟩ := Except.bind_eq_ok.mp hy
      cases hwriting : s.x.conn.channel.isWriting with
      | false =>
          rw [Ctx.handleWrite_not_writing hwriting, Except.ok.injEq] at hx
          rw [← hx] at hy
          exact ih h hy
      | true =>
          have hstep : (lts A init).step s (.writable (s.x.taking room)) { s with x := x } := by
            refine ⟨hwriting, ?_⟩
            show (do return { s with x := ← s.x.handleWrite (s.x.taking room) }) = _
            rw [hx]
            rfl
          exact ih (s := { s with x := x }) (h.step hstep) hy

/-- A program whose connection is up has everything it sent delivered, once the socket has had
room for what it had left. -/
theorem sent_delivered {out : List Byte → List Byte} {holds : σ → List Byte → List Byte → Prop}
    (himp : A.Implements init out holds) (h : (lts A init).Reachable s)
    (hsane : SaneWrites s.x.log) (hopen : s.x.conn.state ≠ .kDisconnected) (rooms : List Nat)
    (hrooms : s.x.conn.outputBuffer.content.length ≤ Ctx.allRoom rooms) :
    ∃ y, s.x.handleWrites rooms = .ok y ∧ (lts A init).Reachable { s with x := y } ∧
      written y.log = out s.answered := by
  have htracked := tracked_of_reachable h hsane
  have hsend : s.x.Sendable := ⟨htracked.agrees, htracked.wf, htracked.writing hopen, hsane⟩
  obtain ⟨y, hy, -, hdrained⟩ := hsend.handleWrites rooms
  refine ⟨y, hy, handleWrites_reachable h hy, ?_⟩
  have hout : written y.log =
      written s.x.log ++ s.x.conn.outputBuffer.content.take (Ctx.allRoom rooms) :=
    congrArg Pipe.out hdrained.pipe
  rw [hout, List.take_of_length_le hrooms]
  exact (served himp h hsane).1

/-- As long as its connection is up, the peer of the echo server gets back all that it has sent,
as soon as the socket has had room for what was unsent, whatever the pieces. -/
theorem echo_delivered {s : Session Unit} (h : (lts App.echo ()).Reachable s)
    (hsane : SaneWrites s.x.log) (hup : s.x.conn.state = .kConnected) (rooms : List Nat)
    (hrooms : s.x.conn.outputBuffer.content.length ≤ Ctx.allRoom rooms) :
    ∃ y, s.x.handleWrites rooms = .ok y ∧ (lts App.echo ()).Reachable { s with x := y } ∧
      written y.log = s.received := by
  obtain ⟨y, hy, hr, hout⟩ :=
    sent_delivered App.echo_implements h hsane (by simp [hup]) rooms hrooms
  exact ⟨y, hy, hr, hout.trans ((served App.echo_implements h hsane).2.2.1 hup)⟩

/-- Three bytes, none of them taken at once; then one, nothing, and the others. -/
theorem echo_delivered_pieces : ∃ (s : Session Unit) (y : Ctx), written s.x.log = [] ∧
    s.x.handleWrites [1, 0, 7] = .ok y ∧ written y.log = [1, 2, 3] := by
  obtain ⟨s, hr, hwritten, hreceived, hlength, hup, hsane⟩ := exists_of_run App.echo ()
    [arrives [1, 2, 3] 0]
    (fun s => written s.x.log = [] ∧ s.received = [1, 2, 3] ∧
      s.x.conn.outputBuffer.content.length = 3 ∧ s.x.conn.state = .kConnected ∧
        SaneWrites s.x.log) (by decide +kernel)
  obtain ⟨y, hy, -, hout⟩ := echo_delivered hr hsane hup [1, 0, 7]
    (by rw [hlength]; decide)
  exact ⟨s, y, hwritten, hy, hout.trans hreceived⟩

end Session

end Muduo
