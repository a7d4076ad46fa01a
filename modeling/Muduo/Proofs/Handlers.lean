/-
What the handlers and the coming and going of a connection do.

As for the output functions, each has one lemma that says everything it does when it
returns: the state, the channel, what was logged and queued.  `runFrame_cases` and
`runFunctor_cases` then sort the pieces of code the loop thread runs by what they do.
-/
import Muduo.Proofs.TcpConnection

namespace Muduo

namespace Functor

def isShutdown : Functor → Bool
  | .shutdownInLoop _ => true
  | _ => false

def isEstablish : Functor → Bool
  | .connectEstablished _ => true
  | _ => false

def isDestory : Functor → Bool
  | .connectDestoryed _ => true
  | _ => false

/-- The call of `send` behind a functor. -/
def callOf : Functor → List SendCall
  | .sendInLoop _ call => [call]
  | _ => []

theorem callOf_of_isUserCallback {f : Functor} (h : f.isUserCallback = true) :
    f.callOf = [] := by
  cases f <;> simp_all [isUserCallback, callOf]

theorem callOf_of_isDestory {f : Functor} (h : f.isDestory = true) : f.callOf = [] := by
  cases f <;> simp_all [isDestory, callOf]

theorem isShutdown_of_isUserCallback {f : Functor} (h : f.isUserCallback = true) :
    f.isShutdown = false := by
  cases f <;> simp_all [isUserCallback, isShutdown]

theorem isShutdown_of_isDestory {f : Functor} (h : f.isDestory = true) :
    f.isShutdown = false := by
  cases f <;> simp_all [isDestory, isShutdown]

theorem isEstablish_of_isDestory {f : Functor} (h : f.isDestory = true) :
    f.isEstablish = false := by
  cases f <;> simp_all [isDestory, isEstablish]

theorem isEstablish_of_isUserCallback {f : Functor} (h : f.isUserCallback = true) :
    f.isEstablish = false := by
  cases f <;> simp_all [isUserCallback, isEstablish]

end Functor

/-- A piece of `connectDestoryed`. -/
def Frame.isDestory : Frame → Bool
  | .destoryStore => true
  | .destoryRemove => true
  | _ => false

namespace Ctx

variable {x x' : Ctx}

/-- `handleClose`, or the body of `connectDestoryed`, up to the end of the callback. -/
structure CloseStep (x x' : Ctx) : Prop where
  state : x'.conn.state = .kDisconnected
  channel : x'.conn.channel = x.conn.channel.withEvents 0
  output : x'.conn.outputBuffer = x.conn.outputBuffer
  pending : x'.pending = x.pending
  log : x'.log = x.log ++ [.stored .kDisconnected, .connectionCallback false]
  agrees : x.Agrees → x'.Agrees
  elsewhere : Elsewhere x x'

/-- The reading part of `handleRead`. -/
structure ReadStep (x x' : Ctx) : Prop where
  state : x'.conn.state = x.conn.state
  channel : x'.conn.channel = x.conn.channel
  output : x'.conn.outputBuffer = x.conn.outputBuffer
  poller : x'.poller = x.poller
  pending : x'.pending = x.pending
  log : ∃ limit ret, x'.log = x.log ++ [.readv limit ret]

structure EstablishStep (x x' : Ctx) : Prop where
  state : x'.conn.state = .kConnected
  channel : x'.conn.channel = Channel.withEvents { x.conn.channel with tied := true }
    (x.conn.channel.events ||| Channel.kReadEvent)
  output : x'.conn.outputBuffer = x.conn.outputBuffer
  pending : x'.pending = x.pending
  log : x'.log = x.log ++ [.establish, .stored .kConnected, .connectionCallback true]
  agrees : x.Agrees → x'.Agrees
  elsewhere : Elsewhere x x'

/-- The end of `connectDestoryed`. -/
structure RemoveStep (x x' : Ctx) : Prop where
  state : x'.conn.state = x.conn.state
  channel : x'.conn.channel = { x.conn.channel with index := .kNew }
  output : x'.conn.outputBuffer = x.conn.outputBuffer
  pending : x'.pending = x.pending
  log : x'.log = x.log ++ [.destoryEnd]
  gone : x.Agrees → x'.poller.channels x.conn.channel.fd = none ∧
    x'.poller.interest x.conn.channel.fd = none
  elsewhere : Elsewhere x x'

theorem RemoveStep.agrees (h : RemoveStep x x') (hag : x.Agrees) : x'.Agrees := by
  obtain ⟨hc, hi⟩ := h.gone hag
  simp only [Agrees, h.channel, Channel.Agrees]
  exact ⟨hc, hi⟩

theorem destoryStore_closeStep (h : x.destoryStore = .ok x') : CloseStep x x' := by
  obtain ⟨y, hy, h⟩ := Except.bind_eq_ok.mp h
  obtain ⟨p, rfl, hother, hag⟩ := updating_setEvents
    (g := fun _ => Channel.kNoneEvent) hy
  obtain rfl := invokeConnectionCallback_eq_ok h
  exact ⟨rfl, rfl, rfl, rfl, by simp [connected], fun hx => hag hx, hother⟩

theorem handleClose_closeStep {fs : List Frame} (h : x.handleClose = .ok (x', fs)) :
    CloseStep x x' ∧ fs = [.closeCallback] := by
  obtain ⟨y, hy, h⟩ := Except.bind_eq_ok.mp h
  obtain ⟨z, hz, h⟩ := Except.bind_eq_ok.mp h
  rw [Except.pure_eq_ok, Prod.mk.injEq] at h
  obtain ⟨p, rfl, hother, hag⟩ := updating_setEvents
    (g := fun _ => Channel.kNoneEvent) hy
  obtain rfl := invokeConnectionCallback_eq_ok hz
  refine ⟨?_, h.2.symm⟩
  rw [← h.1]
  exact ⟨rfl, rfl, rfl, rfl, by simp [connected], fun hx => hag hx, hother⟩

/-- `handleRead` reads, and then either has a message or closes. -/
theorem handleRead_cases {r : ReadvResult} {fs : List Frame}
    (h : x.handleRead r = .ok (x', fs)) :
    ∃ y, ReadStep x y ∧ ((x' = y.record .messageCallback ∧ fs = []) ∨
      (CloseStep y x' ∧ fs = [.closeCallback])) := by
  obtain ⟨⟨input, n, e⟩, -, h⟩ := Except.bind_eq_ok.mp h
  refine ⟨(x.setInput input).record (.readv x.conn.inputBuffer.readvLimit r.ret),
    ⟨rfl, rfl, rfl, rfl, rfl, _, _, rfl⟩, ?_⟩
  dsimp only at h
  by_cases hpos : 0 < n
  · rw [if_pos hpos] at h
    obtain ⟨y, hy, h⟩ := Except.bind_eq_ok.mp h
    rw [Except.pure_eq_ok, Prod.mk.injEq] at h
    obtain rfl := invokeMessageCallback_eq_ok hy
    exact Or.inl ⟨h.1.symm, h.2.symm⟩
  · rw [if_neg hpos, if_pos (by omega)] at h
    exact Or.inr (handleClose_closeStep h)

theorem connectEstablished_establishStep (h : x.connectEstablished = .ok x') :
    EstablishStep x x' := by
  obtain ⟨y, hy, h⟩ := Except.bind_eq_ok.mp h
  obtain ⟨p, rfl, hother, hag⟩ := updating_setEvents
    (g := fun c => c.events ||| Channel.kReadEvent) hy
  obtain rfl := invokeConnectionCallback_eq_ok h
  exact ⟨rfl, rfl, rfl, rfl, by simp [connected, setState, record], fun hx => hag hx, hother⟩

theorem destoryRemove_removeStep (h : x.destoryRemove = .ok x') : RemoveStep x x' := by
  obtain ⟨y, hy, h⟩ := Except.bind_eq_ok.mp h
  obtain ⟨p, rfl, hother, hgone⟩ := updating_remove hy
  rw [Except.pure_eq_ok] at h
  rw [← h]
  exact ⟨rfl, rfl, rfl, rfl, rfl, hgone, hother⟩

theorem connectDestoryed_eq : x.connectDestoryed = (x.record .destoryBegin,
    if x.conn.state = .kConnected then [.destoryStore, .destoryRemove] else [.destoryRemove]) := by
  unfold connectDestoryed
  by_cases hs : x.conn.state = .kConnected
  · simp [hs]
  · simp [hs]

/-! ### The pieces the loop thread runs -/

theorem runFrame_closePart {io : Io} {fs : List Frame}
    (h : x.runFrame io .closePart = .ok (x', fs)) :
    (x' = x ∧ fs = []) ∨ (x.conn.channel.revents.has EPOLLHUP = true ∧
      x.conn.channel.revents.has EPOLLIN = false ∧ CloseStep x x' ∧ fs = [.closeCallback]) := by
  simp only [runFrame] at h
  by_cases hup : x.conn.channel.revents.has EPOLLHUP ∧ ¬ x.conn.channel.revents.has EPOLLIN
  · rw [if_pos hup] at h
    exact Or.inr ⟨hup.1, by simpa using hup.2, handleClose_closeStep h⟩
  · rw [if_neg hup] at h
    simp only [Except.ok.injEq, Prod.mk.injEq] at h
    exact Or.inl ⟨h.1.symm, h.2.symm⟩

theorem runFrame_errorPart {io : Io} {fs : List Frame}
    (h : x.runFrame io .errorPart = .ok (x', fs)) : x' = x ∧ fs = [] := by
  simp only [runFrame, handleError, ite_self, Except.ok.injEq, Prod.mk.injEq] at h
  exact ⟨h.1.symm, h.2.symm⟩

theorem runFrame_readPart {io : Io} {fs : List Frame}
    (h : x.runFrame io .readPart = .ok (x', fs)) :
    (x' = x ∧ fs = []) ∨ (x.conn.channel.revents.has (EPOLLIN ||| EPOLLPRI) = true ∧
      ∃ y, ReadStep x y ∧ ((x' = y.record .messageCallback ∧ fs = []) ∨
        (CloseStep y x' ∧ fs = [.closeCallback]))) := by
  simp only [runFrame] at h
  by_cases hin : x.conn.channel.revents.has (EPOLLIN ||| EPOLLPRI) = true
  · rw [if_pos hin] at h
    exact Or.inr ⟨hin, handleRead_cases h⟩
  · rw [if_neg hin] at h
    simp only [Except.ok.injEq, Prod.mk.injEq] at h
    exact Or.inl ⟨h.1.symm, h.2.symm⟩

theorem runFrame_writePart {io : Io} {fs : List Frame}
    (h : x.runFrame io .writePart = .ok (x', fs)) :
    fs = [] ∧ (x' = x ∨ (x.conn.channel.revents.has EPOLLOUT = true ∧
      x.handleWrite io.write = .ok x')) := by
  simp only [runFrame] at h
  by_cases hout : x.conn.channel.revents.has EPOLLOUT = true
  · rw [if_pos hout] at h
    obtain ⟨y, hy, h⟩ := Except.bind_eq_ok.mp h
    rw [Except.pure_eq_ok, Prod.mk.injEq] at h
    rw [← h.1]
    exact ⟨h.2.symm, Or.inr ⟨hout, hy⟩⟩
  · rw [if_neg hout] at h
    simp only [Except.ok.injEq, Prod.mk.injEq] at h
    exact ⟨h.2.symm, Or.inl h.1.symm⟩

theorem runFrame_connectEstablished {io : Io} {fs : List Frame}
    (h : x.runFrame io .connectEstablished = .ok (x', fs)) : EstablishStep x x' ∧ fs = [] := by
  obtain ⟨y, hy, h⟩ := Except.bind_eq_ok.mp h
  rw [Except.pure_eq_ok, Prod.mk.injEq] at h
  rw [← h.1]
  exact ⟨connectEstablished_establishStep hy, h.2.symm⟩

theorem runFrame_closeCallback {io : Io} {fs : List Frame}
    (h : x.runFrame io .closeCallback = .ok (x', fs)) :
    x' = x.record .closeCallback ∧ fs = [] := by
  obtain ⟨y, hy, h⟩ := Except.bind_eq_ok.mp h
  rw [Except.pure_eq_ok, Prod.mk.injEq] at h
  rw [← h.1, invokeCloseCallback_eq_ok hy]
  exact ⟨rfl, h.2.symm⟩

theorem runFrame_destoryStore {io : Io} {fs : List Frame}
    (h : x.runFrame io .destoryStore = .ok (x', fs)) : CloseStep x x' ∧ fs = [] := by
  obtain ⟨y, hy, h⟩ := Except.bind_eq_ok.mp h
  rw [Except.pure_eq_ok, Prod.mk.injEq] at h
  rw [← h.1]
  exact ⟨destoryStore_closeStep hy, h.2.symm⟩

theorem runFrame_destoryRemove {io : Io} {fs : List Frame}
    (h : x.runFrame io .destoryRemove = .ok (x', fs)) : RemoveStep x x' ∧ fs = [] := by
  obtain ⟨y, hy, h⟩ := Except.bind_eq_ok.mp h
  rw [Except.pure_eq_ok, Prod.mk.injEq] at h
  rw [← h.1]
  exact ⟨destoryRemove_removeStep hy, h.2.symm⟩

theorem runFunctor_sendInLoop {mem : Mem} {io : Io} {c : ConnId} {call : SendCall}
    {fs : List Frame} (h : x.runFunctor mem io (.sendInLoop c call) = .ok (x', fs)) :
    x.sendInLoop mem call io.write = .ok x' ∧ fs = [] := by
  obtain ⟨y, hy, h⟩ := Except.bind_eq_ok.mp h
  rw [Except.pure_eq_ok, Prod.mk.injEq] at h
  rw [← h.1]
  exact ⟨hy, h.2.symm⟩

theorem runFunctor_connectEstablished {mem : Mem} {io : Io} {c : ConnId} {fs : List Frame}
    (h : x.runFunctor mem io (.connectEstablished c) = .ok (x', fs)) :
    EstablishStep x x' ∧ fs = [] := by
  obtain ⟨y, hy, h⟩ := Except.bind_eq_ok.mp h
  rw [Except.pure_eq_ok, Prod.mk.injEq] at h
  rw [← h.1]
  exact ⟨connectEstablished_establishStep hy, h.2.symm⟩

/-! ### What every piece leaves alone -/

/-- A piece of the connection's code: it keeps to its own descriptor, logs at the end of
the log, and queues nothing but user callbacks. -/
structure Local (x x' : Ctx) : Prop where
  id : x'.conn.channel.id = x.conn.channel.id
  fd : x'.conn.channel.fd = x.conn.channel.fd
  agrees : x.Agrees → x'.Agrees
  elsewhere : Elsewhere x x'
  pending : ∃ q, x'.pending = x.pending ++ q ∧ ∀ f ∈ q, f.isUserCallback = true
  log : ∃ es, x'.log = x.log ++ es

theorem Local.refl (x : Ctx) : Local x x :=
  ⟨rfl, rfl, fun h => h, fun _ _ => ⟨rfl, rfl⟩, ⟨[], by simp⟩, ⟨[], by simp⟩⟩

theorem Local.trans {x y z : Ctx} (h₁ : Local x y) (h₂ : Local y z) : Local x z where
  id := h₂.id.trans h₁.id
  fd := h₂.fd.trans h₁.fd
  agrees h := h₂.agrees (h₁.agrees h)
  elsewhere fd hfd := by
    obtain ⟨hc₁, hi₁⟩ := h₁.elsewhere fd hfd
    obtain ⟨hc₂, hi₂⟩ := h₂.elsewhere fd (by rw [h₁.fd]; exact hfd)
    exact ⟨hc₂.trans hc₁, hi₂.trans hi₁⟩
  pending := by
    obtain ⟨q₁, hq₁, hall₁⟩ := h₁.pending
    obtain ⟨q₂, hq₂, hall₂⟩ := h₂.pending
    refine ⟨q₁ ++ q₂, by rw [hq₂, hq₁, List.append_assoc], ?_⟩
    intro f hf
    rcases List.mem_append.mp hf with hf | hf
    · exact hall₁ f hf
    · exact hall₂ f hf
  log := by
    obtain ⟨es₁, hes₁⟩ := h₁.log
    obtain ⟨es₂, hes₂⟩ := h₂.log
    exact ⟨es₁ ++ es₂, by rw [hes₂, hes₁, List.append_assoc]⟩

theorem Local.record (e : Entry) : Local x (x.record e) :=
  { Local.refl x with log := ⟨[e], rfl⟩ }

theorem shutdownStore_local : Local x x.shutdownStore :=
  { Local.refl x with log := ⟨_, rfl⟩ }

theorem OutputStep.local (h : OutputStep x x') : Local x x' := by
  obtain ⟨es, hes, -⟩ := h.log
  exact ⟨h.id, h.fd, h.agrees, h.elsewhere, h.pending, es, hes⟩

theorem CloseStep.local (h : CloseStep x x') : Local x x' :=
  ⟨by rw [h.channel]; rfl, by rw [h.channel]; rfl, h.agrees, h.elsewhere,
    ⟨[], by simp [h.pending]⟩, ⟨_, h.log⟩⟩

theorem ReadStep.local (h : ReadStep x x') : Local x x' := by
  obtain ⟨limit, ret, hlog⟩ := h.log
  refine ⟨by rw [h.channel], by rw [h.channel], ?_, ?_, ⟨[], by simp [h.pending]⟩, ⟨_, hlog⟩⟩
  · intro hag
    simpa only [Agrees, h.poller, h.channel] using hag
  · intro fd _
    rw [h.poller]
    exact ⟨rfl, rfl⟩

theorem EstablishStep.local (h : EstablishStep x x') : Local x x' :=
  ⟨by rw [h.channel]; rfl, by rw [h.channel]; rfl, h.agrees, h.elsewhere,
    ⟨[], by simp [h.pending]⟩, ⟨_, h.log⟩⟩

theorem RemoveStep.local (h : RemoveStep x x') : Local x x' :=
  ⟨by rw [h.channel], by rw [h.channel], h.agrees, h.elsewhere,
    ⟨[], by simp [h.pending]⟩, ⟨_, h.log⟩⟩

theorem runFrame_local {io : Io} {f : Frame} {fs : List Frame}
    (h : x.runFrame io f = .ok (x', fs)) : Local x x' := by
  cases f with
  | connectEstablished => exact (runFrame_connectEstablished h).1.local
  | closePart =>
      rcases runFrame_closePart h with ⟨rfl, -⟩ | ⟨-, -, hclose, -⟩
      · exact .refl _
      · exact hclose.local
  | errorPart =>
      obtain ⟨rfl, -⟩ := runFrame_errorPart h
      exact .refl _
  | readPart =>
      rcases runFrame_readPart h with ⟨rfl, -⟩ | ⟨-, y, hread, hend⟩
      · exact .refl _
      · rcases hend with ⟨rfl, -⟩ | ⟨hclose, -⟩
        · exact hread.local.trans (.record _)
        · exact hread.local.trans hclose.local
  | writePart =>
      rcases runFrame_writePart h with ⟨-, rfl | ⟨-, hwrite⟩⟩
      · exact .refl _
      · exact (handleWrite_outputStep hwrite).local
  | closeCallback =>
      obtain ⟨rfl, -⟩ := runFrame_closeCallback h
      exact .record _
  | destoryStore => exact (runFrame_destoryStore h).1.local
  | destoryRemove => exact (runFrame_destoryRemove h).1.local

/-- The other functors run no code of the connection that changes it. -/
theorem runFunctor_userCallback {mem : Mem} {io : Io} {f : Functor} {fs : List Frame}
    (hf : f.isUserCallback = true) (h : x.runFunctor mem io f = .ok (x', fs)) :
    x' = x ∧ fs = [] := by
  cases f with
  | writeComplete c | highWaterMark c n =>
      simp only [runFunctor, Except.ok.injEq, Prod.mk.injEq] at h
      exact ⟨h.1.symm, h.2.symm⟩
  | sendInLoop c call | shutdownInLoop c | connectEstablished c | connectDestoryed c
  | removeConnectionInLoop c => simp [Functor.isUserCallback] at hf

theorem runFunctor_removeConnectionInLoop {mem : Mem} {io : Io} {c : ConnId} {fs : List Frame}
    (h : x.runFunctor mem io (.removeConnectionInLoop c) = .ok (x', fs)) :
    x' = x ∧ fs = [] := by
  simp only [runFunctor, Except.ok.injEq, Prod.mk.injEq] at h
  exact ⟨h.1.symm, h.2.symm⟩

theorem runFunctor_shutdownInLoop {mem : Mem} {io : Io} {c : ConnId} {fs : List Frame}
    (h : x.runFunctor mem io (.shutdownInLoop c) = .ok (x', fs)) :
    x' = x.shutdownInLoop ∧ fs = [] := by
  simp only [runFunctor, Except.ok.injEq, Prod.mk.injEq] at h
  exact ⟨h.1.symm, h.2.symm⟩

theorem runFunctor_connectDestoryed {mem : Mem} {io : Io} {c : ConnId} {fs : List Frame}
    (h : x.runFunctor mem io (.connectDestoryed c) = .ok (x', fs)) :
    x' = x.record .destoryBegin ∧ fs = if x.conn.state = .kConnected then
      [.destoryStore, .destoryRemove] else [.destoryRemove] := by
  simp only [runFunctor, Except.ok.injEq] at h
  rw [connectDestoryed_eq, Prod.mk.injEq] at h
  exact ⟨h.1.symm, h.2.symm⟩

theorem runFunctor_local {mem : Mem} {io : Io} {f : Functor} {fs : List Frame}
    (h : x.runFunctor mem io f = .ok (x', fs)) : Local x x' := by
  cases f with
  | sendInLoop c call => exact (sendInLoop_outputStep (runFunctor_sendInLoop h).1).local
  | shutdownInLoop c =>
      obtain ⟨rfl, -⟩ := runFunctor_shutdownInLoop h
      exact shutdownInLoop_outputStep.local
  | connectEstablished c => exact (runFunctor_connectEstablished h).1.local
  | connectDestoryed c =>
      obtain ⟨rfl, -⟩ := runFunctor_connectDestoryed h
      exact .record _
  | writeComplete c | highWaterMark c n =>
      obtain ⟨rfl, -⟩ := runFunctor_userCallback rfl h
      exact .refl _
  | removeConnectionInLoop c =>
      obtain ⟨rfl, -⟩ := runFunctor_removeConnectionInLoop h
      exact .refl _

/-! ### The state, once the connection has been established -/

theorem runFrame_started {io : Io} {f : Frame} {fs : List Frame}
    (hf : f ≠ .connectEstablished) (hs : x.conn.state ≠ .kConnecting)
    (h : x.runFrame io f = .ok (x', fs)) :
    x'.conn.state ≠ .kConnecting ∧ .connectEstablished ∉ fs := by
  cases f with
  | connectEstablished => exact absurd rfl hf
  | closePart =>
      rcases runFrame_closePart h with ⟨rfl, rfl⟩ | ⟨-, -, hclose, rfl⟩
      · exact ⟨hs, by simp⟩
      · exact ⟨by simp [hclose.state], by simp⟩
  | errorPart =>
      obtain ⟨rfl, rfl⟩ := runFrame_errorPart h
      exact ⟨hs, by simp⟩
  | readPart =>
      rcases runFrame_readPart h with ⟨rfl, rfl⟩ | ⟨-, y, hread, hend⟩
      · exact ⟨hs, by simp⟩
      · rcases hend with ⟨rfl, rfl⟩ | ⟨hclose, rfl⟩
        · exact ⟨by rw [record_conn, hread.state]; exact hs, by simp⟩
        · exact ⟨by simp [hclose.state], by simp⟩
  | writePart =>
      rcases runFrame_writePart h with ⟨rfl, rfl | ⟨-, hwrite⟩⟩
      · exact ⟨hs, by simp⟩
      · exact ⟨by rw [(handleWrite_outputStep hwrite).state]; exact hs, by simp⟩
  | closeCallback =>
      obtain ⟨rfl, rfl⟩ := runFrame_closeCallback h
      exact ⟨hs, by simp⟩
  | destoryStore =>
      obtain ⟨hclose, rfl⟩ := runFrame_destoryStore h
      exact ⟨by simp [hclose.state], by simp⟩
  | destoryRemove =>
      obtain ⟨hrem, rfl⟩ := runFrame_destoryRemove h
      exact ⟨by rw [hrem.state]; exact hs, by simp⟩

theorem runFunctor_started {mem : Mem} {io : Io} {f : Functor} {fs : List Frame}
    (hf : f.isEstablish = false) (hs : x.conn.state ≠ .kConnecting)
    (h : x.runFunctor mem io f = .ok (x', fs)) :
    x'.conn.state ≠ .kConnecting ∧ .connectEstablished ∉ fs := by
  cases f with
  | sendInLoop c call =>
      obtain ⟨hsend, rfl⟩ := runFunctor_sendInLoop h
      exact ⟨by rw [(sendInLoop_outputStep hsend).state]; exact hs, by simp⟩
  | shutdownInLoop c =>
      obtain ⟨rfl, rfl⟩ := runFunctor_shutdownInLoop h
      exact ⟨by rw [shutdownInLoop_outputStep.state]; exact hs, by simp⟩
  | connectEstablished c => simp [Functor.isEstablish] at hf
  | connectDestoryed c =>
      obtain ⟨rfl, rfl⟩ := runFunctor_connectDestoryed h
      refine ⟨hs, ?_⟩
      by_cases hconn : x.conn.state = .kConnected <;> simp [hconn]
  | writeComplete c | highWaterMark c n =>
      obtain ⟨rfl, rfl⟩ := runFunctor_userCallback rfl h
      exact ⟨hs, by simp⟩
  | removeConnectionInLoop c =>
      obtain ⟨rfl, rfl⟩ := runFunctor_removeConnectionInLoop h
      exact ⟨hs, by simp⟩

/-! ### What does not touch the output -/

/-- A piece that moves no bytes out and settles no call. -/
structure Quiet (x x' : Ctx) : Prop where
  output : x'.conn.outputBuffer = x.conn.outputBuffer
  log : ∃ es, x'.log = x.log ++ es ∧ ∀ e ∈ es, e.isOutput = false ∧ e.isCall = false

namespace Quiet

theorem refl (x : Ctx) : Quiet x x := ⟨rfl, [], by simp, by simp⟩

theorem trans {x y z : Ctx} (h₁ : Quiet x y) (h₂ : Quiet y z) : Quiet x z := by
  obtain ⟨es₁, hes₁, hall₁⟩ := h₁.log
  obtain ⟨es₂, hes₂, hall₂⟩ := h₂.log
  refine ⟨h₂.output.trans h₁.output, es₁ ++ es₂, by rw [hes₂, hes₁, List.append_assoc], ?_⟩
  intro e he
  rcases List.mem_append.mp he with he | he
  · exact hall₁ e he
  · exact hall₂ e he

theorem record {e : Entry} (hout : e.isOutput = false) (hcall : e.isCall = false) :
    Quiet x (x.record e) :=
  ⟨rfl, [e], rfl, by simp [hout, hcall]⟩

theorem pipe (h : Quiet x x') : x'.pipe = x.pipe := by
  obtain ⟨es, hes, hall⟩ := h.log
  have hnil : written es = [] := written_of_noOutput fun e he => (hall e he).1
  simp [Ctx.pipe, hes, hnil, h.output]

end Quiet

theorem shutdownStore_quiet : Quiet x x.shutdownStore :=
  ⟨rfl, [.stored .kDisconnecting], rfl, by simp [Entry.isOutput, Entry.isCall]⟩

theorem CloseStep.quiet (h : CloseStep x x') : Quiet x x' :=
  ⟨h.output, _, h.log, by simp [Entry.isOutput, Entry.isCall]⟩

theorem ReadStep.quiet (h : ReadStep x x') : Quiet x x' := by
  obtain ⟨limit, ret, hlog⟩ := h.log
  exact ⟨h.output, _, hlog, by simp [Entry.isOutput, Entry.isCall]⟩

theorem EstablishStep.quiet (h : EstablishStep x x') : Quiet x x' :=
  ⟨h.output, _, h.log, by simp [Entry.isOutput, Entry.isCall]⟩

theorem RemoveStep.quiet (h : RemoveStep x x') : Quiet x x' :=
  ⟨h.output, _, h.log, by simp [Entry.isOutput, Entry.isCall]⟩

/-- Only `handleWrite` moves bytes out of a frame. -/
theorem runFrame_quiet {io : Io} {f : Frame} {fs : List Frame}
    (h : x.runFrame io f = .ok (x', fs)) :
    Quiet x x' ∨ (f = .writePart ∧ fs = [] ∧ x.conn.channel.revents.has EPOLLOUT = true ∧
      x.handleWrite io.write = .ok x') := by
  cases f with
  | connectEstablished => exact Or.inl (runFrame_connectEstablished h).1.quiet
  | closePart =>
      rcases runFrame_closePart h with ⟨rfl, -⟩ | ⟨-, -, hclose, -⟩
      · exact Or.inl (.refl _)
      · exact Or.inl hclose.quiet
  | errorPart =>
      obtain ⟨rfl, -⟩ := runFrame_errorPart h
      exact Or.inl (.refl _)
  | readPart =>
      rcases runFrame_readPart h with ⟨rfl, -⟩ | ⟨-, y, hread, hend⟩
      · exact Or.inl (.refl _)
      · rcases hend with ⟨rfl, -⟩ | ⟨hclose, -⟩
        · exact Or.inl (hread.quiet.trans (.record rfl rfl))
        · exact Or.inl (hread.quiet.trans hclose.quiet)
  | writePart =>
      rcases runFrame_writePart h with ⟨rfl, rfl | ⟨hout, hwrite⟩⟩
      · exact Or.inl (.refl _)
      · exact Or.inr ⟨rfl, rfl, hout, hwrite⟩
  | closeCallback =>
      obtain ⟨rfl, -⟩ := runFrame_closeCallback h
      exact Or.inl (.record rfl rfl)
  | destoryStore => exact Or.inl (runFrame_destoryStore h).1.quiet
  | destoryRemove => exact Or.inl (runFrame_destoryRemove h).1.quiet

/-- Of the functors only `sendInLoop` and `shutdownInLoop` are about the output. -/
theorem runFunctor_quiet {mem : Mem} {io : Io} {f : Functor} {fs : List Frame}
    (h : x.runFunctor mem io f = .ok (x', fs)) :
    (Quiet x x' ∧ f.callOf = []) ∨
      (∃ c call, f = .sendInLoop c call ∧ fs = [] ∧ x.sendInLoop mem call io.write = .ok x') ∨
      (∃ c, f = .shutdownInLoop c ∧ fs = [] ∧ x' = x.shutdownInLoop) := by
  cases f with
  | sendInLoop c call =>
      obtain ⟨hsend, rfl⟩ := runFunctor_sendInLoop h
      exact Or.inr (Or.inl ⟨c, call, rfl, rfl, hsend⟩)
  | shutdownInLoop c =>
      obtain ⟨rfl, rfl⟩ := runFunctor_shutdownInLoop h
      exact Or.inr (Or.inr ⟨c, rfl, rfl, rfl⟩)
  | connectEstablished c =>
      exact Or.inl ⟨(runFunctor_connectEstablished h).1.quiet, rfl⟩
  | connectDestoryed c =>
      obtain ⟨rfl, -⟩ := runFunctor_connectDestoryed h
      exact Or.inl ⟨.record rfl rfl, rfl⟩
  | writeComplete c | highWaterMark c n =>
      obtain ⟨rfl, -⟩ := runFunctor_userCallback rfl h
      exact Or.inl ⟨.refl _, rfl⟩
  | removeConnectionInLoop c =>
      obtain ⟨rfl, -⟩ := runFunctor_removeConnectionInLoop h
      exact Or.inl ⟨.refl _, rfl⟩

/-! ### What is no part of `connectDestoryed` -/

/-- A piece that logs nothing of `connectDestoryed`. -/
def Undestroying (x x' : Ctx) : Prop :=
  ∃ es, x'.log = x.log ++ es ∧ ∀ e ∈ es, e.isDestory = false

theorem OutputStep.undestroying (h : OutputStep x x') : Undestroying x x' := by
  obtain ⟨es, hes, hall⟩ := h.log
  exact ⟨es, hes, fun e he => Entry.isDestory_of_isOutput (hall e he)⟩

theorem CloseStep.undestroying (h : CloseStep x x') : Undestroying x x' :=
  ⟨_, h.log, by simp [Entry.isDestory]⟩

theorem EstablishStep.undestroying (h : EstablishStep x x') : Undestroying x x' :=
  ⟨_, h.log, by simp [Entry.isDestory]⟩

theorem ReadStep.undestroying (h : ReadStep x x') : Undestroying x x' := by
  obtain ⟨limit, ret, hlog⟩ := h.log
  exact ⟨_, hlog, by simp [Entry.isDestory]⟩

theorem Undestroying.refl (x : Ctx) : Undestroying x x := ⟨[], by simp, by simp⟩

theorem Undestroying.trans {y z : Ctx} (h₁ : Undestroying x y) (h₂ : Undestroying y z) :
    Undestroying x z := by
  obtain ⟨es₁, hes₁, hall₁⟩ := h₁
  obtain ⟨es₂, hes₂, hall₂⟩ := h₂
  refine ⟨es₁ ++ es₂, by rw [hes₂, hes₁, List.append_assoc], ?_⟩
  intro e he
  rcases List.mem_append.mp he with he | he
  · exact hall₁ e he
  · exact hall₂ e he

theorem Undestroying.record {e : Entry} (he : e.isDestory = false) :
    Undestroying x (x.record e) :=
  ⟨[e], rfl, by simp [he]⟩

theorem runFrame_undestroying {io : Io} {f : Frame} {fs : List Frame}
    (hf : f.isDestory = false) (h : x.runFrame io f = .ok (x', fs)) :
    Undestroying x x' ∧ ∀ g ∈ fs, g.isDestory = false := by
  cases f with
  | connectEstablished =>
      obtain ⟨hest, rfl⟩ := runFrame_connectEstablished h
      exact ⟨hest.undestroying, by simp⟩
  | closePart =>
      rcases runFrame_closePart h with ⟨rfl, rfl⟩ | ⟨-, -, hclose, rfl⟩
      · exact ⟨.refl _, by simp⟩
      · exact ⟨hclose.undestroying, by simp [Frame.isDestory]⟩
  | errorPart =>
      obtain ⟨rfl, rfl⟩ := runFrame_errorPart h
      exact ⟨.refl _, by simp⟩
  | readPart =>
      rcases runFrame_readPart h with ⟨rfl, rfl⟩ | ⟨-, y, hread, hend⟩
      · exact ⟨.refl _, by simp⟩
      · rcases hend with ⟨rfl, rfl⟩ | ⟨hclose, rfl⟩
        · exact ⟨hread.undestroying.trans (.record rfl), by simp⟩
        · exact ⟨hread.undestroying.trans hclose.undestroying, by simp [Frame.isDestory]⟩
  | writePart =>
      rcases runFrame_writePart h with ⟨rfl, rfl | ⟨-, hwrite⟩⟩
      · exact ⟨.refl _, by simp⟩
      · exact ⟨(handleWrite_outputStep hwrite).undestroying, by simp⟩
  | closeCallback =>
      obtain ⟨rfl, rfl⟩ := runFrame_closeCallback h
      exact ⟨.record rfl, by simp⟩
  | destoryStore | destoryRemove => simp [Frame.isDestory] at hf

theorem runFunctor_undestroying {mem : Mem} {io : Io} {f : Functor} {fs : List Frame}
    (hf : f.isDestory = false) (h : x.runFunctor mem io f = .ok (x', fs)) :
    Undestroying x x' ∧ fs = [] := by
  cases f with
  | sendInLoop c call =>
      obtain ⟨hsend, rfl⟩ := runFunctor_sendInLoop h
      exact ⟨(sendInLoop_outputStep hsend).undestroying, rfl⟩
  | shutdownInLoop c =>
      obtain ⟨rfl, rfl⟩ := runFunctor_shutdownInLoop h
      exact ⟨shutdownInLoop_outputStep.undestroying, rfl⟩
  | connectEstablished c =>
      obtain ⟨hest, rfl⟩ := runFunctor_connectEstablished h
      exact ⟨hest.undestroying, rfl⟩
  | connectDestoryed c => simp [Functor.isDestory] at hf
  | writeComplete c | highWaterMark c n =>
      obtain ⟨rfl, rfl⟩ := runFunctor_userCallback rfl h
      exact ⟨.refl _, rfl⟩
  | removeConnectionInLoop c =>
      obtain ⟨rfl, rfl⟩ := runFunctor_removeConnectionInLoop h
      exact ⟨.refl _, rfl⟩

/-! ### Staying up, or going down

After `connectEstablished` a piece that moves no bytes either leaves the state and the
write interest as they are, or is the end of both.
-/

structure Stays (x x' : Ctx) : Prop where
  quiet : Quiet x x'
  state : x'.conn.state = x.conn.state
  writing : x'.conn.channel.isWriting = x.conn.channel.isWriting
  stores : stores x'.log = stores x.log

structure Closes (x x' : Ctx) : Prop where
  quiet : Quiet x x'
  state : x'.conn.state = .kDisconnected
  writing : x'.conn.channel.isWriting = false
  stores : stores x'.log = stores x.log ++ [.kDisconnected]

theorem Stays.refl (x : Ctx) : Stays x x := ⟨.refl x, rfl, rfl, rfl⟩

theorem OutputStep.stores (h : OutputStep x x') : stores x'.log = stores x.log := by
  obtain ⟨es, hes, hall⟩ := h.log
  rw [hes, stores_append, stores_of_isOutput hall, List.append_nil]

theorem CloseStep.closes (h : CloseStep x x') : Closes x x' := by
  refine ⟨h.quiet, h.state, ?_, ?_⟩
  · rw [h.channel]
    simp [Channel.isWriting]
  · rw [h.log]
    simp [Entry.storeOf]

theorem ReadStep.stays (h : ReadStep x x') : Stays x x' := by
  obtain ⟨limit, ret, hlog⟩ := h.log
  refine ⟨h.quiet, h.state, by rw [h.channel], ?_⟩
  rw [hlog]
  simp [Entry.storeOf]

theorem RemoveStep.stays (h : RemoveStep x x') : Stays x x' := by
  refine ⟨h.quiet, h.state, by rw [h.channel]; rfl, ?_⟩
  rw [h.log]
  simp [Entry.storeOf]

theorem Stays.record (h : Stays x x') {e : Entry} (hout : e.isOutput = false)
    (hcall : e.isCall = false) (hstore : e.storeOf = []) : Stays x (x'.record e) := by
  refine ⟨h.quiet.trans (.record hout hcall), h.state, h.writing, ?_⟩
  rw [record_log, stores_append, h.stores]
  simp [hstore]

theorem Stays.closes {y : Ctx} (h₁ : Stays x y) (h₂ : Closes y x') : Closes x x' :=
  ⟨h₁.quiet.trans h₂.quiet, h₂.state, h₂.writing, by rw [h₂.stores, h₁.stores]⟩

theorem runFrame_kind {io : Io} {f : Frame} {fs : List Frame} (hf : f ≠ .connectEstablished)
    (h : x.runFrame io f = .ok (x', fs)) :
    Stays x x' ∨ Closes x x' ∨ (f = .writePart ∧ fs = [] ∧
      x.conn.channel.revents.has EPOLLOUT = true ∧ x.handleWrite io.write = .ok x') := by
  cases f with
  | connectEstablished => exact absurd rfl hf
  | closePart =>
      rcases runFrame_closePart h with ⟨rfl, -⟩ | ⟨-, -, hclose, -⟩
      · exact Or.inl (.refl _)
      · exact Or.inr (Or.inl hclose.closes)
  | errorPart =>
      obtain ⟨rfl, -⟩ := runFrame_errorPart h
      exact Or.inl (.refl _)
  | readPart =>
      rcases runFrame_readPart h with ⟨rfl, -⟩ | ⟨-, y, hread, hend⟩
      · exact Or.inl (.refl _)
      · rcases hend with ⟨rfl, -⟩ | ⟨hclose, -⟩
        · exact Or.inl (hread.stays.record rfl rfl rfl)
        · exact Or.inr (Or.inl (hread.stays.closes hclose.closes))
  | writePart =>
      rcases runFrame_writePart h with ⟨rfl, rfl | ⟨hout, hwrite⟩⟩
      · exact Or.inl (.refl _)
      · exact Or.inr (Or.inr ⟨rfl, rfl, hout, hwrite⟩)
  | closeCallback =>
      obtain ⟨rfl, -⟩ := runFrame_closeCallback h
      exact Or.inl ((Stays.refl x).record rfl rfl rfl)
  | destoryStore => exact Or.inr (Or.inl (runFrame_destoryStore h).1.closes)
  | destoryRemove => exact Or.inl (runFrame_destoryRemove h).1.stays

theorem runFunctor_kind {mem : Mem} {io : Io} {f : Functor} {fs : List Frame}
    (hf : f.isEstablish = false) (h : x.runFunctor mem io f = .ok (x', fs)) :
    (Stays x x' ∧ f.callOf = [] ∧ f.isShutdown = false) ∨
      (∃ c call, f = .sendInLoop c call ∧ fs = [] ∧ x.sendInLoop mem call io.write = .ok x') ∨
      (∃ c, f = .shutdownInLoop c ∧ fs = [] ∧ x' = x.shutdownInLoop) := by
  cases f with
  | sendInLoop c call =>
      obtain ⟨hsend, rfl⟩ := runFunctor_sendInLoop h
      exact Or.inr (Or.inl ⟨c, call, rfl, rfl, hsend⟩)
  | shutdownInLoop c =>
      obtain ⟨rfl, rfl⟩ := runFunctor_shutdownInLoop h
      exact Or.inr (Or.inr ⟨c, rfl, rfl, rfl⟩)
  | connectEstablished c => simp [Functor.isEstablish] at hf
  | connectDestoryed c =>
      obtain ⟨rfl, -⟩ := runFunctor_connectDestoryed h
      exact Or.inl ⟨(Stays.refl x).record rfl rfl rfl, rfl, rfl⟩
  | writeComplete c | highWaterMark c n =>
      obtain ⟨rfl, -⟩ := runFunctor_userCallback rfl h
      exact Or.inl ⟨.refl _, rfl, rfl⟩
  | removeConnectionInLoop c =>
      obtain ⟨rfl, -⟩ := runFunctor_removeConnectionInLoop h
      exact Or.inl ⟨.refl _, rfl, rfl⟩

end Ctx

end Muduo
