/-
What a program behind a connection receives and what its peer gets.

A program implements a function on streams when, however the stream is cut, it has sent after
each piece what the function makes of all of it so far.  `Session.served` carries that over to the
connection: the reads may cut the stream anywhere and the writes may take as little as they like,
and still what went out, with the unsent output behind it, is the function of what came in.
-/
import Muduo.Lib.Decoder
import Muduo.Session
import Muduo.Proofs.BufferSystem
import Muduo.Proofs.Confined
import Muduo.Proofs.FailedCalls
import Muduo.Proofs.Output
import Muduo.Trace

namespace Muduo

namespace Ctx

variable {x x' : Ctx}

/-- What moves no bytes keeps what was moved. -/
theorem Quiet.flow (h : Quiet x x') (hflow : x.Flow) : x'.Flow ∧ taken x'.log = taken x.log := by
  obtain ⟨es, hes, hall⟩ := h.log
  refine ⟨hflow.quiet h, ?_⟩
  rw [hes, taken_append, taken_of_noCall fun e he => (hall e he).2, List.append_nil]

end Ctx

/-! ### The calls of a message callback -/

theorem Mem.read_ofString (message : List Byte) (hlen : message.length < 2 ^ 64) :
    (Mem.ofString message).read 0 message.length = .ok message := by
  have key : ∀ n p, p + n = message.length →
      (Mem.ofString message).read p n = .ok (message.drop p) := by
    intro n
    induction n with
    | zero =>
        intro p hp
        rw [List.drop_of_length_le (by omega)]
        rfl
    | succ n ih =>
        intro p hp
        have hp' : p < message.length := by omega
        have hmod : p % 2 ^ 64 = p := Nat.mod_eq_of_lt (by omega)
        have hbyte : Mem.ofString message p = some message[p] := List.getElem?_eq_getElem hp'
        simp only [Mem.read, hmod, hbyte, ih (p + 1) (by omega), List.drop_eq_getElem_cons hp',
          Except.map]
  simpa using key message.length 0 (Nat.zero_add _)

namespace Op

variable {t : Tid} {x x' : Ctx} {w : WriteResult} {op : Op} {ops : List Op}
  {answers : Nat → WriteResult}

/-- What a call, or a list of calls, does to a connection that nothing is wrong with. -/
structure Ran (x x' : Ctx) (ops : List Op) : Prop where
  flow : x'.Flow
  input : x'.conn.inputBuffer.WF
  content : x'.conn.inputBuffer.content = leftover ops x.conn.inputBuffer.content
  state : x'.conn.state = x.conn.state
  taken : taken x'.log = taken x.log ++ if x.connected then sends ops else []

/-- The call of `send` with a string. -/
def callOf (t : Tid) (message : List Byte) : SendCall where
  thread := t
  message := 0
  len := message.length
  bytes := message

theorem run_send {message : List Byte} (hlen : message.length ≤ maxSize) :
    (Op.send message).run t x w =
      if x.connected then
        (x.record (.called (callOf t message))).sendRun true (Mem.ofString message)
          (callOf t message) w
      else .ok x := by
  have hread : (Mem.ofString message).read 0 message.length = .ok message :=
    Mem.read_ofString message (by unfold maxSize at hlen; omega)
  have hsend : x.send t (Mem.ofString message) 0 message.length =
      .ok (if x.connected then (x.record (.called (callOf t message)),
        .sending (callOf t message)) else (x, .idle)) := by
    simp only [Ctx.send, hread]
    rfl
  simp only [run, if_neg (Nat.not_lt.mpr hlen), hsend]
  cases x.connected <;> rfl

/-- A call that ends without a fault had a string of a size there is. -/
theorem run_size {message : List Byte} (h : (Op.send message).run t x w = .ok x') :
    message.length ≤ maxSize := by
  by_contra hlarge
  simp only [run, if_pos (Nat.not_le.mp hlarge)] at h
  simp at h

theorem run_log (h : op.run t x w = .ok x') : ∃ es, x'.log = x.log ++ es := by
  cases op with
  | retrieve len =>
      simp only [run, Except.ok.injEq] at h
      exact ⟨[], by rw [← h]; simp [Ctx.setInput]⟩
  | send message =>
      rw [run_send (run_size h)] at h
      cases hconn : x.connected with
      | false =>
          simp only [hconn, Bool.false_eq_true, if_false, Except.ok.injEq] at h
          exact ⟨[], by simp [h]⟩
      | true =>
          simp only [hconn, if_true] at h
          obtain ⟨y, hy, h⟩ := Except.bind_eq_ok.mp h
          obtain ⟨es, hes, -⟩ := (Ctx.sendInLoop_outputStep hy).log
          rw [Except.pure_eq_ok] at h
          exact ⟨_, by rw [← h, Ctx.record_log, hes, Ctx.record_log]; simp; rfl⟩

theorem runAll_log (h : runAll t x answers ops = .ok x') : ∃ es, x'.log = x.log ++ es := by
  induction ops generalizing x answers with
  | nil =>
      simp only [runAll, Except.ok.injEq] at h
      exact ⟨[], by simp [h]⟩
  | cons op ops ih =>
      obtain ⟨y, hy, h⟩ := Except.bind_eq_ok.mp h
      obtain ⟨es, hes⟩ := run_log hy
      obtain ⟨es', hes'⟩ := ih h
      exact ⟨es ++ es', by rw [hes', hes, List.append_assoc]⟩

theorem Ran.refl (hflow : x.Flow) (hinput : x.conn.inputBuffer.WF) : Ran x x [] :=
  ⟨hflow, hinput, rfl, rfl, by simp [sends]⟩

/-- A message goes into the pipe whole. -/
theorem Ran.send {message : List Byte} (hflow : x.Flow) (hinput : x.conn.inputBuffer.WF)
    (h : (Op.send message).run t x w = .ok x') (hsane : SaneWrites x'.log) :
    Ran x x' [.send message] := by
  have hlen := run_size h
  rw [run_send hlen] at h
  cases hconn : x.connected with
  | false =>
      simp only [hconn, Bool.false_eq_true, if_false, Except.ok.injEq] at h
      rw [← h]
      exact ⟨hflow, hinput, rfl, rfl, by simp [hconn]⟩
  | true =>
      simp only [hconn, if_true] at h
      obtain ⟨y, hy, h⟩ := Except.bind_eq_ok.mp h
      rw [Except.pure_eq_ok] at h
      have hy : (x.record (.called (callOf t message))).sendInLoop (Mem.ofString message)
          (callOf t message) w = .ok y := hy
      have hstate : x.conn.state = .kConnected := by simpa [Ctx.connected] using hconn
      have hcalled : (x.record (.called (callOf t message))).Flow := hflow.record rfl rfl
      have hlt : (callOf t message).len < 2 ^ 64 := by
        show message.length < 2 ^ 64
        unfold maxSize at hlen
        omega
      have hsane' : SaneWrites y.log := by
        rw [← h, Ctx.record_log, saneWrites_append] at hsane
        exact hsane.1
      obtain ⟨bytes, k, hread, hstep⟩ :=
        Ctx.sendInLoop_sane hcalled.wf hlt (by simp [hstate]) hy hsane'
      obtain rfl : bytes = message :=
        Except.ok.inj (hread.symm.trans (Mem.read_ofString message hlt))
      have hinput' : y.conn.inputBuffer = x.conn.inputBuffer :=
        (Ctx.Confined.sendInLoop hy).input
      rw [← h]
      refine ⟨(hcalled.sendInLoop hlt hy hsane').record rfl rfl, ?_, ?_, ?_, ?_⟩
      · show y.conn.inputBuffer.WF
        rw [hinput']
        exact hinput
      · show y.conn.inputBuffer.content = _
        rw [hinput']
        rfl
      · exact (Ctx.sendInLoop_outputStep hy).state
      · rcases hstep.log with ⟨hlog, -⟩ | ⟨hlog, -⟩ <;>
          simp [hlog, Entry.takenOf, sends, hconn]

theorem Ran.retrieve {len : Nat} (hflow : x.Flow) (hinput : x.conn.inputBuffer.WF)
    (h : (Op.retrieve len).run t x w = .ok x') : Ran x x' [.retrieve len] := by
  simp only [run, Except.ok.injEq] at h
  rw [← h]
  refine ⟨⟨hflow.wf, hflow.conserved, hflow.sized⟩, hinput.retrieve len, ?_, rfl, ?_⟩
  · exact Buffer.content_retrieve hinput len
  · simp [Ctx.setInput, sends]

theorem leftover_append (ops ops' : List Op) (content : List Byte) :
    leftover (ops ++ ops') content = leftover ops' (leftover ops content) := by
  induction ops generalizing content with
  | nil => rfl
  | cons op ops ih => cases op <;> exact ih _

theorem sends_append (ops ops' : List Op) : sends (ops ++ ops') = sends ops ++ sends ops' := by
  induction ops with
  | nil => rfl
  | cons op ops ih => cases op <;> simp [sends, ih]

theorem Ran.trans {ops' : List Op} {y : Ctx} (h₁ : Ran x y ops) (h₂ : Ran y x' ops') :
    Ran x x' (ops ++ ops') := by
  have hconn : y.connected = x.connected := by
    unfold Ctx.connected
    rw [h₁.state]
  refine ⟨h₂.flow, h₂.input, ?_, h₂.state.trans h₁.state, ?_⟩
  · rw [h₂.content, h₁.content, leftover_append]
  · rw [h₂.taken, h₁.taken, hconn, sends_append]
    cases x.connected <;> simp

theorem run_ran (hflow : x.Flow) (hinput : x.conn.inputBuffer.WF) (h : op.run t x w = .ok x')
    (hsane : SaneWrites x'.log) : Ran x x' [op] := by
  cases op with
  | retrieve len => exact .retrieve hflow hinput h
  | send message => exact .send hflow hinput h hsane

/-- What a message callback does to the connection. -/
theorem runAll_ran (hflow : x.Flow) (hinput : x.conn.inputBuffer.WF)
    (h : runAll t x answers ops = .ok x') (hsane : SaneWrites x'.log) : Ran x x' ops := by
  induction ops generalizing x answers with
  | nil =>
      simp only [runAll, Except.ok.injEq] at h
      rw [← h]
      exact .refl hflow hinput
  | cons op ops ih =>
      obtain ⟨y, hy, h⟩ := Except.bind_eq_ok.mp h
      obtain ⟨es, hes⟩ := runAll_log h
      have hsane' : SaneWrites y.log := by
        rw [hes, saneWrites_append] at hsane
        exact hsane.1
      have hran := run_ran hflow hinput hy hsane'
      exact hran.trans (ih hran.flow hran.input h)

end Op

/-! ### Programs -/

namespace App

variable {σ : Type} {A : App σ} {init : σ} {out : List Byte → List Byte}
  {holds : σ → List Byte → List Byte → Prop}

/-- The program sends what `out` makes of the stream, in whatever pieces the stream comes.
`holds` relates its state to the stream so far and to what it has left in the buffer. -/
structure Implements (A : App σ) (init : σ) (out : List Byte → List Byte)
    (holds : σ → List Byte → List Byte → Prop) : Prop where
  start : holds init [] []
  nothing : out [] = []
  step : ∀ st stream rest piece, holds st stream rest →
    holds (A.onMessage st (rest ++ piece)).1 (stream ++ piece)
      (Op.leftover (A.onMessage st (rest ++ piece)).2 (rest ++ piece)) ∧
    out (stream ++ piece) = out stream ++ Op.sends (A.onMessage st (rest ++ piece)).2

end App

namespace Session

variable {σ : Type} {A : App σ} {init : σ} {out : List Byte → List Byte}
  {holds : σ → List Byte → List Byte → Prop} {s s' : Session σ} {a : Action}

/-- The program has seen the stream, and what it sent of it is in the pipe. -/
structure Serving (out : List Byte → List Byte) (holds : σ → List Byte → List Byte → Prop)
    (s : Session σ) : Prop where
  flow : s.x.Flow
  input : s.x.conn.inputBuffer.WF
  seen : holds s.app s.received s.x.conn.inputBuffer.content
  sent : taken s.x.log = out s.answered
  prior : s.answered <+: s.received
  current : s.x.conn.state = .kConnected → s.answered = s.received

/-- A step that moves no input and sends nothing. -/
theorem Serving.same (h : Serving out holds s) {x : Ctx} (hflow : x.Flow)
    (hinput : x.conn.inputBuffer = s.x.conn.inputBuffer)
    (hstate : x.conn.state = .kConnected → s.x.conn.state = .kConnected)
    (htaken : taken x.log = taken s.x.log) : Serving out holds { s with x := x } where
  flow := hflow
  input := by
    show x.conn.inputBuffer.WF
    rw [hinput]
    exact h.input
  seen := by
    show holds s.app s.received x.conn.inputBuffer.content
    rw [hinput]
    exact h.seen
  sent := htaken.trans h.sent
  prior := h.prior
  current hs := h.current (hstate hs)

theorem Serving.closed (h : Serving out holds s) {x y : Ctx} (hclose : Ctx.CloseStep x y)
    (hflow : x.Flow) (htaken : taken x.log = taken s.x.log)
    (hinput : y.conn.inputBuffer = s.x.conn.inputBuffer) (hs : s.closed y = .ok s') :
    Serving out holds s' := by
  obtain ⟨z, hz, hs⟩ := Except.bind_eq_ok.mp hs
  rw [Except.pure_eq_ok] at hs
  obtain rfl := Ctx.invokeCloseCallback_eq_ok hz
  obtain ⟨hflow', htaken'⟩ := hclose.quiet.flow hflow
  rw [← hs]
  refine h.same (hflow'.record rfl rfl) hinput ?_ ?_
  · intro hstate
    have hdown : y.conn.state = .kDisconnected := hclose.state
    rw [Ctx.record_conn, hdown] at hstate
    simp at hstate
  · rw [Ctx.record_log, taken_append, htaken', htaken]
    exact List.append_nil _

/-- The program gets a piece of the stream. -/
theorem Serving.message (h : Serving out holds s) (himp : A.Implements init out holds) {x : Ctx}
    {data : List Byte} {answers : Nat → WriteResult} (hflow : x.Flow)
    (hwf : x.conn.inputBuffer.WF)
    (hcontent : x.conn.inputBuffer.content = s.x.conn.inputBuffer.content ++ data)
    (hstate : x.conn.state = s.x.conn.state) (htaken : taken x.log = taken s.x.log)
    (hs : s.message A x data answers = .ok s') (hsane : SaneWrites s'.x.log) :
    Serving out holds s' := by
  obtain ⟨y, hy, hs⟩ := Except.bind_eq_ok.mp hs
  rw [Except.pure_eq_ok] at hs
  rw [← hs] at hsane ⊢
  have hran := Op.runAll_ran hflow hwf hy hsane
  obtain ⟨hseen, hout⟩ := himp.step s.app s.received s.x.conn.inputBuffer.content data h.seen
  rw [← hcontent] at hseen hout
  refine ⟨hran.flow, hran.input, ?_, ?_, ?_, ?_⟩
  · show holds _ (s.received ++ data) y.conn.inputBuffer.content
    rw [hran.content]
    exact hseen
  · show taken y.log = out (if x.connected then s.received ++ data else s.answered)
    rw [hran.taken, htaken, h.sent]
    cases hconn : x.connected with
    | false => simp
    | true =>
        have hup : s.x.conn.state = .kConnected := by
          rw [← hstate]
          simpa [Ctx.connected] using hconn
        simp only [if_true, hout, h.current hup]
  · show (if x.connected then s.received ++ data else s.answered) <+: s.received ++ data
    split
    · exact List.prefix_refl _
    · exact h.prior.trans (List.prefix_append ..)
  · intro hup
    have hup : y.conn.state = .kConnected := hup
    have hconn : x.connected = true := by
      rw [hran.state] at hup
      simp [Ctx.connected, hup]
    show (if x.connected then s.received ++ data else s.answered) = s.received ++ data
    rw [if_pos hconn]

/-- `shutdown` does nothing, or goes through to `shutdownInLoop`. -/
theorem shutdown_cases (hs : s.exec A .shutdown = .ok s') :
    s' = { s with x := s.x.record (.shutdownCalled s.loopTid) } ∨
      (s.x.conn.state = .kConnected ∧ s' = { s with
        x := (s.x.record (.shutdownCalled s.loopTid)).shutdownStore.shutdownInLoop }) := by
  simp only [exec, Ctx.shutdown] at hs
  cases hconn : (s.x.record (.shutdownCalled s.loopTid)).connected with
  | false =>
      simp only [hconn, Bool.false_eq_true, if_false, Except.ok.injEq] at hs
      exact .inl hs.symm
  | true =>
      simp only [hconn, if_true, Except.ok.injEq] at hs
      exact .inr ⟨by simpa [Ctx.connected] using hconn, hs.symm⟩

theorem Serving.step (h : Serving out holds s) (himp : A.Implements init out holds)
    (hstep : (lts A init).step s a s') (hsane : SaneWrites s'.x.log) : Serving out holds s' := by
  obtain ⟨hen, hs⟩ := hstep
  cases a with
  | readable r answers =>
      obtain ⟨⟨x, fs⟩, hx, hs⟩ := Except.bind_eq_ok.mp hs
      obtain ⟨⟨input, n, e⟩, hread, hx⟩ := Except.bind_eq_ok.mp hx
      rcases hen.2 with hfailed | ⟨hret, hlimit⟩
      · obtain ⟨e, herr⟩ := Buffer.readFd_failed h.input hfailed
        rw [herr] at hread
        simp at hread
      rcases Buffer.readFd_runs h.input hret hlimit with ⟨herr, -⟩ | ⟨b, hok, hwf, hcontent⟩
      · rw [herr] at hread
        simp at hread
      rw [hok, Except.ok.injEq, Prod.mk.injEq, Prod.mk.injEq] at hread
      obtain ⟨rfl, rfl, rfl⟩ := hread
      have hquiet : Ctx.Quiet s.x ((s.x.setInput b).record
          (.readv s.x.conn.inputBuffer.readvLimit r.ret)) := ⟨rfl, _, rfl, by
        simp [Entry.isOutput, Entry.isCall]⟩
      obtain ⟨hflow, htaken⟩ := hquiet.flow h.flow
      dsimp only at hx
      by_cases hpos : 0 < r.data.length
      · rw [if_pos hpos] at hx
        obtain ⟨y, hy, hx⟩ := Except.bind_eq_ok.mp hx
        rw [Except.pure_eq_ok, Prod.mk.injEq] at hx
        obtain rfl := Ctx.invokeMessageCallback_eq_ok hy
        obtain ⟨rfl, rfl⟩ := hx
        have hs : s.message A _ r.data answers = .ok s' := hs
        refine h.message himp (hflow.record rfl rfl) hwf hcontent rfl ?_ hs hsane
        rw [Ctx.record_log, taken_append, htaken]
        exact List.append_nil _
      · have hzero : r.data.length = 0 := by omega
        rw [if_neg hpos, if_pos hzero] at hx
        obtain ⟨hclose, rfl⟩ := Ctx.handleClose_closeStep hx
        have hinput := (Ctx.Confined.handleClose hx).input
        rw [List.length_eq_zero_iff.mp hzero, List.append_nil] at hcontent
        have hread : Serving out holds
            { s with
              x := (s.x.setInput b).record (.readv s.x.conn.inputBuffer.readvLimit r.ret) } := by
          refine ⟨hflow, hwf, ?_, htaken.trans h.sent, h.prior, h.current⟩
          show holds s.app s.received b.content
          rw [hcontent]
          exact h.seen
        exact hread.closed hclose hflow rfl hinput hs
  | writable w =>
      obtain ⟨x, hx, hs⟩ := Except.bind_eq_ok.mp hs
      rw [Except.pure_eq_ok] at hs
      rw [← hs] at hsane ⊢
      obtain ⟨es, hes, hall⟩ := Ctx.handleWrite_noCall hx
      refine h.same (h.flow.handleWrite hx hsane) (Ctx.Confined.handleWrite hx).input ?_ ?_
      · rw [(Ctx.handleWrite_outputStep hx).state]
        exact id
      · rw [hes, taken_append, taken_of_noCall hall, List.append_nil]
  | hangup =>
      obtain ⟨⟨x, fs⟩, hx, hs⟩ := Except.bind_eq_ok.mp hs
      exact h.closed (Ctx.handleClose_closeStep hx).1 h.flow rfl
        (Ctx.Confined.handleClose hx).input hs
  | shutdown =>
      have hcalled : (s.x.record (.shutdownCalled s.loopTid)).Flow := h.flow.record rfl rfl
      have htaken : taken (s.x.record (.shutdownCalled s.loopTid)).log = taken s.x.log := by
        rw [Ctx.record_log, taken_append]
        exact List.append_nil _
      rcases shutdown_cases hs with rfl | ⟨-, rfl⟩
      · exact h.same hcalled rfl id htaken
      · obtain ⟨hflow, htaken'⟩ := (Ctx.shutdownStore_quiet (x := s.x.record _)).flow hcalled
        obtain ⟨es, hes, hall⟩ := Ctx.shutdownInLoop_log
          (x := (s.x.record (.shutdownCalled s.loopTid)).shutdownStore)
        refine h.same hflow.shutdownInLoop ?_ ?_ ?_
        · rw [Ctx.shutdownInLoop_conn]
          rfl
        · intro hstate
          rw [Ctx.shutdownInLoop_conn] at hstate
          simp [Ctx.shutdownStore] at hstate
        · rw [hes, taken_append, taken_of_noCall hall, List.append_nil, htaken', htaken]
  | others poller =>
      have hs : s' = { s with x := { s.x with poller := poller } } := (Except.ok.inj hs).symm
      rw [hs]
      exact h.same ⟨h.flow.wf, h.flow.conserved, h.flow.sized⟩ rfl id rfl

theorem Serving.of_init (himp : A.Implements init out holds) (h : s.Init init) :
    Serving out holds s := by
  obtain ⟨x, ⟨id, fd, wc, hconn⟩, hlog, hest⟩ := h.up
  have hstep := Ctx.connectEstablished_establishStep hest
  have houtput : s.x.conn.outputBuffer = Buffer.new Buffer.kInitialSize := by
    rw [hstep.output, hconn]
    rfl
  have hinput : s.x.conn.inputBuffer = Buffer.new Buffer.kInitialSize := by
    rw [(Ctx.Confined.connectEstablished hest).input, hconn]
    rfl
  have htaken : taken s.x.log = [] := by
    rw [hstep.log, hlog]
    rfl
  refine ⟨⟨?_, ?_, ?_⟩, ?_, ?_, ?_, ?_, ?_⟩
  · rw [houtput]
    exact Buffer.WF.new _
  · rw [htaken, Ctx.pipe, Pipe.total, houtput, Buffer.content_new, hstep.log, hlog]
    rfl
  · intro call bytes hmem
    rw [hstep.log, hlog] at hmem
    simp at hmem
  · rw [hinput]
    exact Buffer.WF.new _
  · rw [h.app, h.received, hinput, Buffer.content_new]
    exact himp.start
  · rw [htaken, h.answered]
    exact himp.nothing.symm
  · rw [h.answered]
    exact List.nil_prefix
  · intro _
    rw [h.answered, h.received]

theorem closed_log {x : Ctx} (hs : s.closed x = .ok s') : s'.x.log = x.log ++ [.closeCallback] := by
  obtain ⟨y, hy, hs⟩ := Except.bind_eq_ok.mp hs
  rw [Except.pure_eq_ok] at hs
  obtain rfl := Ctx.invokeCloseCallback_eq_ok hy
  rw [← hs]
  rfl

theorem message_log {x : Ctx} {data : List Byte} {answers : Nat → WriteResult}
    (hs : s.message A x data answers = .ok s') : ∃ es, s'.x.log = x.log ++ es := by
  obtain ⟨y, hy, hs⟩ := Except.bind_eq_ok.mp hs
  rw [Except.pure_eq_ok] at hs
  rw [← hs]
  exact Op.runAll_log hy

theorem step_grows (hstep : (lts A init).step s a s') : ∃ es, s'.x.log = s.x.log ++ es := by
  obtain ⟨-, hs⟩ := hstep
  cases a with
  | readable r answers =>
      obtain ⟨⟨x, fs⟩, hx, hs⟩ := Except.bind_eq_ok.mp hs
      obtain ⟨y, hread, hend⟩ := Ctx.handleRead_cases hx
      obtain ⟨limit, ret, hlog⟩ := hread.log
      rcases hend with ⟨rfl, rfl⟩ | ⟨hclose, rfl⟩
      · obtain ⟨es, hes⟩ := message_log (A := A) hs
        exact ⟨_, by rw [hes, Ctx.record_log, hlog, List.append_assoc, List.append_assoc]⟩
      · exact ⟨_, by rw [closed_log hs, hclose.log, hlog, List.append_assoc, List.append_assoc]⟩
  | writable w =>
      obtain ⟨x, hx, hs⟩ := Except.bind_eq_ok.mp hs
      obtain ⟨es, hes, -⟩ := Ctx.handleWrite_noCall hx
      rw [Except.pure_eq_ok] at hs
      exact ⟨es, by rw [← hs, hes]⟩
  | hangup =>
      obtain ⟨⟨x, fs⟩, hx, hs⟩ := Except.bind_eq_ok.mp hs
      exact ⟨_, by rw [closed_log hs, (Ctx.handleClose_closeStep hx).1.log, List.append_assoc]⟩
  | shutdown =>
      rcases shutdown_cases hs with rfl | ⟨-, rfl⟩
      · exact ⟨_, rfl⟩
      · obtain ⟨es, hes, -⟩ := Ctx.shutdownInLoop_log
          (x := (s.x.record (.shutdownCalled s.loopTid)).shutdownStore)
        exact ⟨_, by rw [hes]; simp [Ctx.shutdownStore]; rfl⟩
  | others poller =>
      have hs : s' = { s with x := { s.x with poller := poller } } := (Except.ok.inj hs).symm
      exact ⟨[], by rw [hs]; simp⟩

theorem serving_of_reachable (himp : A.Implements init out holds)
    (h : (lts A init).Reachable s) (hsane : SaneWrites s.x.log) : Serving out holds s := by
  refine h.induct (P := fun s => SaneWrites s.x.log → Serving out holds s)
    (fun s₀ h0 _ => .of_init himp h0) ?_ hsane
  intro m a m' _ hm hstep hsane'
  obtain ⟨es, hes⟩ := step_grows hstep
  rw [hes, saneWrites_append] at hsane'
  refine (hm hsane'.1).step himp hstep ?_
  rw [hes, saneWrites_append]
  exact hsane'

/-- Whatever pieces the stream comes in and however little each write takes, what has gone out and
the unsent output behind it are what the program's function makes of the stream up to a
`shutdown`; up to a close or a `shutdown` that is all of the stream. -/
theorem served (himp : A.Implements init out holds) (h : (lts A init).Reachable s)
    (hsane : SaneWrites s.x.log) :
    written s.x.log ++ s.x.conn.outputBuffer.content = out s.answered ∧
      s.answered <+: s.received ∧ (s.x.conn.state = .kConnected → s.answered = s.received) ∧
      holds s.app s.received s.x.conn.inputBuffer.content := by
  have hserving := serving_of_reachable himp h hsane
  refine ⟨?_, hserving.prior, hserving.current, hserving.seen⟩
  rw [← hserving.sent]
  exact hserving.flow.conserved

end Session

end Muduo
